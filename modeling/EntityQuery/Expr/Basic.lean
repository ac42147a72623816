import EntityQuery.Literal.Basic
import EntityQuery.Model.Basic
import EntityQuery.Operator.Basic

/-!
# Expressions

A typed expression over the properties of an entity. Every node carries its type and the byte offset
in the text that it was read from.
-/

namespace EntityQuery

/-- The type of a node and its position in the text. -/
structure Annotation where
  type : ValueType
  position : Nat
  deriving DecidableEq, Repr

/-- A property or navigation property, with the name that the store knows it by. -/
structure PropertyRef where
  name : String
  internalName : String
  facets : Facets
  deriving DecidableEq, Repr

/-- A typed expression. -/
inductive Expr where
  | literal (note : Annotation) (value : Literal)
  | property (note : Annotation) (ref : PropertyRef)
  | member (note : Annotation) (path property : Expr)
  | unary (note : Annotation) (op : UnaryOperator) (operand : Expr)
  | binary (note : Annotation) (op : BinaryOperator) (left right : Expr)
  | call (note : Annotation) (method : Method) (arguments : List Expr)
  deriving Repr

/-- The kinds of nodes. -/
inductive ExprKind where
  | literal
  | property
  | member
  | unary
  | binary
  | call
  deriving DecidableEq, Repr

/-- How an error message names a kind of node. -/
def ExprKind.text : ExprKind → String
  | .literal => "literal"
  | .property => "property"
  | .member => "member"
  | .unary => "unary"
  | .binary => "binary"
  | .call => "method call"

namespace Expr

/-- The annotation of the root. -/
def note : Expr → Annotation
  | .literal a _ => a
  | .property a _ => a
  | .member a _ _ => a
  | .unary a _ _ => a
  | .binary a _ _ _ => a
  | .call a _ _ => a

/-- The type of an expression. -/
def type (e : Expr) : ValueType := e.note.type

/-- The position of an expression. -/
def position (e : Expr) : Nat := e.note.position

/-- The kind of the root. -/
def kind : Expr → ExprKind
  | .literal _ _ => .literal
  | .property _ _ => .property
  | .member _ _ _ => .member
  | .unary _ _ _ => .unary
  | .binary _ _ _ _ => .binary
  | .call _ _ _ => .call

/-- The expression with another annotation at its root. -/
def withNote (e : Expr) (a : Annotation) : Expr :=
  match e with
  | .literal _ value => .literal a value
  | .property _ ref => .property a ref
  | .member _ path target => .member a path target
  | .unary _ op operand => .unary a op operand
  | .binary _ op left right => .binary a op left right
  | .call _ method arguments => .call a method arguments

/-- The expression moved to another position. -/
def moveTo (e : Expr) (position : Nat) : Expr := e.withNote ⟨e.type, position⟩

/-- The literal `null`. -/
def isNull : Expr → Bool
  | .literal _ value => value.isNull
  | _ => false

/-- A disjunction. -/
def isDisjunction : Expr → Bool
  | .binary _ .or _ _ => true
  | _ => false

@[simp]
theorem note_withNote (e : Expr) (a : Annotation) : (e.withNote a).note = a := by
  cases e <;> rfl

@[simp]
theorem type_moveTo (e : Expr) (position : Nat) : (e.moveTo position).type = e.type := by
  simp [Expr.moveTo, Expr.type]

@[simp]
theorem position_moveTo (e : Expr) (position : Nat) : (e.moveTo position).position = position := by
  simp [Expr.moveTo, Expr.position]

end Expr

/-- The direction of a sort key. -/
inductive SortOrder where
  | ascending
  | descending
  deriving DecidableEq, Repr

/-- The keyword of a direction. -/
def SortOrder.keyword : SortOrder → String
  | .ascending => "ASC"
  | .descending => "DESC"

/-- A sort key. -/
structure OrderItem where
  expression : Expr
  order : SortOrder
  deriving Repr

end EntityQuery
