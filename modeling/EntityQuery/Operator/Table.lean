import EntityQuery.Operator.Standard

/-!
# Operator tables

A table holds at most one descriptor an operator. A builder collects them and refuses what would
make a table unusable: an operator registered twice, a signature for an unknown operator, of the
wrong length or with a system type in it, and an operator left without signatures.
-/

namespace EntityQuery

/-- Why a registration is refused. -/
inductive TableError where
  | duplicateOperator (operator : Operator)
  | unknownOperator (operator : Operator)
  | lastParameterSignature (operator : Operator)
  | arityMismatch (operator : Operator) (expected found : Nat)
  | systemTypeInSignature (operator : Operator) (type : SimpleType)
  | missingSignatures (operator : Operator)
  deriving DecidableEq, Repr

/-- The wording of an error. -/
def TableError.message : TableError → String
  | .duplicateOperator op => "operator '" ++ op.keyword ++ "' registered twice"
  | .unknownOperator op => "signature registered for unknown operator '" ++ op.keyword ++ "'"
  | .lastParameterSignature op =>
    "operator '" ++ op.keyword ++
      "' takes its result from the last parameter and accepts no signatures"
  | .arityMismatch op expected found =>
    "operator '" ++ op.keyword ++ "' expects " ++ expected.repr ++ " parameters, signature has " ++
      found.repr
  | .systemTypeInSignature op type =>
    "operator '" ++ op.keyword ++ "' signature uses system type " ++ type.name
  | .missingSignatures op => "operator '" ++ op.keyword ++ "' has no signatures"

/-- The descriptors of a table, in the order they were registered. -/
structure OperatorTable where
  entries : List Descriptor
  deriving DecidableEq, Repr

namespace OperatorTable

/-- The descriptor of an operator. -/
def get? (table : OperatorTable) (op : Operator) : Option Descriptor :=
  table.entries.find? fun d => d.operator == op

/-- The descriptor of the binary operator with a keyword. -/
def binary? (table : OperatorTable) (word : String) : Option Descriptor :=
  (BinaryOperator.ofKeyword? word).bind fun op => table.get? (.binary op)

/-- The descriptor of the method with a name. -/
def method? (table : OperatorTable) (word : String) : Option Descriptor :=
  (Method.ofName? word).bind fun m => table.get? (.method m)

/-- The number of descriptors. -/
def size (table : OperatorTable) : Nat := table.entries.length

/-- The table of the standard operators. -/
def standard : OperatorTable := ⟨Operator.all.map Operator.descriptor⟩

end OperatorTable

/-- The descriptors registered so far. -/
structure TableBuilder where
  entries : List Descriptor
  deriving DecidableEq, Repr

namespace TableBuilder

/-- Nothing is registered yet. -/
def empty : TableBuilder := ⟨[]⟩

/-- The descriptor of a registered operator. -/
def find? (b : TableBuilder) (op : Operator) : Option Descriptor :=
  b.entries.find? fun d => d.operator == op

/-- A builder with one more entry. -/
def push (b : TableBuilder) (d : Descriptor) : TableBuilder := ⟨b.entries ++ [d]⟩

/-- A builder with one more signature of an operator, behind those that it has. -/
def extend (b : TableBuilder) (op : Operator) (s : Signature) : TableBuilder :=
  ⟨b.entries.map fun d =>
    if d.operator = op then { d with signatures := d.signatures.append [s] } else d⟩

/-- A change to a builder; one that is refused still hands over the builder it came to. -/
abbrev Change := EStateM TableError TableBuilder Unit

/-- Registers an operator that is not registered yet. -/
def register (op : Operator) (surface : String) (category : OperatorCategory) (precedence : Nat)
    (signatures : Signatures) : Change := do
  match (← get).find? op with
  | some _ => throw (.duplicateOperator op)
  | none => modify fun b => b.push ⟨op, op.keyword, surface, category, precedence, signatures⟩

/-- Registers an operator without signatures. -/
def addOperator (op : Operator) (surface : String) (category : OperatorCategory)
    (precedence : Nat) : Change :=
  register op surface category precedence (.declared [])

/-- Registers an operator that has the type of its last operand. -/
def addLastParameter (op : Operator) (surface : String) (category : OperatorCategory)
    (precedence : Nat) : Change :=
  register op surface category precedence .lastParameter

/-- The number of operands that an operator must have. -/
def arity? : Operator → Option Nat
  | .binary _ => some 2
  | .unary _ => some 1
  | .method _ => none
  | .member => none

/-- The checks of a signature that do not look at what is registered. -/
def checkSignature (op : Operator) (s : Signature) : Except TableError Unit :=
  let count := s.parameters.length
  match (arity? op).filter fun n => count != n || s.variadic with
  | some expected => .error (.arityMismatch op expected count)
  | none =>
    if s.parameters.isEmpty then .error (.arityMismatch op 1 0)
    else match (s.parameters ++ [s.result]).find? SimpleType.isSystem with
      | some type => .error (.systemTypeInSignature op type)
      | none => .ok ()

/-- Adds a signature to a registered operator. -/
def addSignature (op : Operator) (s : Signature) : Change := do
  match (← get).find? op with
  | none => throw (.unknownOperator op)
  | some d =>
    match checkSignature op s with
    | .error e => throw e
    | .ok () =>
      match d.signatures with
      | .lastParameter => throw (.lastParameterSignature op)
      | .declared _ => modify fun b => b.extend op s

/-- The table, if every operator has what it takes to find the type of its result. -/
def build (b : TableBuilder) : Except TableError OperatorTable :=
  match b.entries.find? fun d => d.signatures == .declared [] with
  | some d => .error (.missingSignatures d.operator)
  | none => .ok ⟨b.entries⟩

end TableBuilder

end EntityQuery
