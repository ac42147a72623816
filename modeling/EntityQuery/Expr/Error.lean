import EntityQuery.Expr.Basic
import EntityQuery.Operator.Signature
import EntityQuery.Token.Stream

/-!
# Errors of expressions

Why a text is not an expression of the model, and why an expression has no JPQL form.
-/

namespace EntityQuery

/-- The wording of an error about a node that cannot be dealt with. -/
def unsupported (node : String) : String := "Unsupported expression node: " ++ node

/-- Why tokens do not form an expression over the model. The last three are no fault of the tokens:
a literal token without a value, an operator that the table does not have, and a signature without
the parameter that is looked for, which ends the work at once. -/
inductive ParseError where
  | unexpected (cause : UnexpectedToken)
  | trailing (position : Nat) (found : String)
  | operandMismatch (position : Nat) (operator : Operator) (operands : List ValueType)
  | pathNotStructural (position : Nat) (segment : String) (found : ValueType)
  | unknownProperty (position : Nat) (name : String) (owner : ValueType)
  | unknownMethod (position : Nat) (name : String)
  | collectionNavigation (position : Nat) (name : String)
  | typeExpected (position : Nat) (expected : SimpleType) (found : ValueType)
  | invalidToken (cause : LexicalError)
  | unsupportedNode (operator : Operator)
  | outOfRange (cause : OutOfRange)
  deriving DecidableEq, Repr

namespace ParseError

/-- Where the error is, if it is about a place in the input. -/
def position? : ParseError → Option Nat
  | .unexpected cause => some cause.position
  | .trailing p _ => some p
  | .operandMismatch p _ _ => some p
  | .pathNotStructural p _ _ => some p
  | .unknownProperty p _ _ => some p
  | .unknownMethod p _ => some p
  | .collectionNavigation p _ => some p
  | .typeExpected p _ _ => some p
  | .invalidToken cause => some cause.position
  | .unsupportedNode _ => none
  | .outOfRange _ => none

/-- The wording of the error. -/
def message : ParseError → String
  | .unexpected cause => cause.message
  | .trailing p found => "Unexpected trailing token at position " ++ p.repr ++ ": '" ++ found ++ "'"
  | .operandMismatch p op operands =>
    "Operator '" ++ op.keyword ++ "' at position " ++ p.repr ++ " does not accept operands (" ++
      ", ".intercalate (operands.map ValueType.text) ++ ")"
  | .pathNotStructural p segment found =>
    "Path segment '" ++ segment ++ "' at position " ++ p.repr ++
      " is applied to non-structural type " ++ found.text
  | .unknownProperty p name owner =>
    "Unknown property '" ++ name ++ "' on type " ++ owner.text ++ " at position " ++ p.repr
  | .unknownMethod p name => "Unknown method '" ++ name ++ "' at position " ++ p.repr
  | .collectionNavigation p name =>
    "Collection navigation property '" ++ name ++ "' at position " ++ p.repr ++
      " cannot be used in an expression"
  | .typeExpected p expected found =>
    "Expression at position " ++ p.repr ++ " must be of type " ++ expected.name ++ ", found " ++
      found.text
  | .invalidToken cause => cause.message
  | .unsupportedNode op => unsupported op.keyword
  | .outOfRange cause =>
    "index out of bounds: the len is " ++ cause.length.repr ++ " but the index is " ++
      cause.index.repr

end ParseError

/-- Why an expression has no JPQL form. -/
inductive RenderError where
  | structural (kind : ExprKind) (type : ValueType)
  | memberAccess (kind : ExprKind)
  | argumentCount (method : Method) (count : Nat)
  | unknownOperator (op : BinaryOperator)
  deriving DecidableEq, Repr

/-- The wording of the error. -/
def RenderError.message (e : RenderError) : String :=
  unsupported <|
    match e with
    | .structural k type => k.text ++ " of structural type " ++ type.text
    | .memberAccess k => "member access to " ++ k.text
    | .argumentCount m count => m.name ++ " with " ++ count.repr ++ " arguments"
    | .unknownOperator op => "binary operator " ++ op.keyword

/-- Everything that can be wrong with an expression. -/
inductive ExpressionError where
  | lexical (cause : LexicalError)
  | parse (cause : ParseError)
  | render (cause : RenderError)
  deriving DecidableEq, Repr

/-- The wording of the error. -/
def ExpressionError.message : ExpressionError → String
  | .lexical cause => cause.message
  | .parse cause => cause.message
  | .render cause => cause.message

end EntityQuery
