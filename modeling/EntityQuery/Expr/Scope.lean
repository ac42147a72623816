import EntityQuery.Expr.Error
import EntityQuery.Operator.Table

/-!
# Names and operand types

The entity type whose properties an expression may name, and the two checks that every node passes:
a name must be a property of its owner, and operands must be of types that the operator takes. What
an operator takes is found in the standard table.
-/

namespace EntityQuery

/-- The type of the result for operands of these types, or an error at the given position. -/
def Descriptor.check (d : Descriptor) (position : Nat) (operands : List ValueType) :
    Except ParseError ValueType :=
  match d.resolve operands with
  | .ok (some type) => .ok type
  | .ok none => .error (.operandMismatch position d.operator operands)
  | .error cause => .error (.outOfRange cause)

/-- The check of an operator by its entry in the standard table. -/
def Operator.check (op : Operator) (position : Nat) (operands : List ValueType) :
    Except ParseError ValueType :=
  match OperatorTable.standard.get? op with
  | some d => d.check position operands
  | none => .error (.unsupportedNode op)

/-- The binary operator with a keyword, and its entry in the standard table. -/
def BinaryOperator.lookUp? (word : String) : Option (BinaryOperator × Descriptor) :=
  match OperatorTable.standard.binary? word with
  | none => none
  | some d =>
    match d.operator with
    | .binary op => some (op, d)
    | _ => none

/-- The method with a name, and its entry in the standard table. -/
def Method.lookUp? (name : String) : Option (Method × Descriptor) :=
  match OperatorTable.standard.method? name with
  | none => none
  | some d =>
    match d.operator with
    | .method m => some (m, d)
    | _ => none

/-- What an expression is read against. -/
structure Scope where
  model : Model
  entityType : EntityType
  inputSize : Nat
  deriving Repr

namespace Scope

/-- The property of a type that has a name. -/
def property? (model : Model) (owner : ValueType) (name : String) : Option Property :=
  match owner with
  | .simple _ => none
  | .complex typeName => (model.complexType? typeName).bind fun t => t.property? name
  | .entity typeName => (model.entityType? typeName).bind fun t => t.property? name

/-- The navigation property of a type that has a name. -/
def navigation? (model : Model) (owner : ValueType) (name : String) : Option NavigationProperty :=
  match owner with
  | .entity typeName => (model.entityType? typeName).bind fun t => t.navigationProperty? name
  | _ => none

/-- The node of a name that stands at a position and belongs to a type. A property hides a
navigation property of the same name, and a navigation property must lead to at most one entity. -/
def resolve (model : Model) (owner : ValueType) (name : String) (position : Nat) :
    Except ParseError Expr :=
  match property? model owner name with
  | some p => .ok (.property ⟨p.type.valueType, position⟩ ⟨p.name, p.internalName, p.facets⟩)
  | none =>
    match navigation? model owner name with
    | none => .error (.unknownProperty position name owner)
    | some n =>
      if n.multiplicity.isSingle then
        .ok (.property ⟨.entity n.targetType, position⟩ ⟨n.name, n.internalName, Facets.none⟩)
      else .error (.collectionNavigation position name)

/-- The type that the first name of a path belongs to. -/
def root (s : Scope) : ValueType := .entity s.entityType.name

/-- The error of tokens that do not start as expected. -/
def unexpected (s : Scope) (expected : Expected) (tokens : List Token) : ParseError :=
  .unexpected (EntityQuery.unexpected s.inputSize expected tokens)

end Scope

end EntityQuery
