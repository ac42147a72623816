import EntityQuery.Proofs.Expr.Resolved
import EntityQuery.Proofs.Operator.Resolution

/-!
# Every node is well typed

The type of each node of an expression that was read follows from its own parts: from the literal,
from the declaration that a name stands for, or from the types of the operands by the table of
operators. Only literals have system types, and structured values stand only at the root and in
paths.
-/

namespace EntityQuery

/-- Where a node stands in its tree: at the root, as an operand or an argument, as the path of an
access to a member, or as the member, which belongs to the type of the path. -/
inductive NodePlace where
  | root
  | operand
  | path
  | target (owner : ValueType)
  deriving DecidableEq, Repr

/-- The type whose properties a node at this place may name, in a tree over an entity. -/
def NodePlace.owner (entity : ValueType) : NodePlace → ValueType
  | .target owner => owner
  | _ => entity

/-- The type that a table gives to an operator on operands of these types. -/
def OperatorTable.resultType? (table : OperatorTable) (op : Operator) (operands : List ValueType) :
    Option ValueType :=
  match table.get? op with
  | none => none
  | some d =>
    match d.resolve operands with
    | .ok type? => type?
    | .error _ => none

theorem OperatorTable.resultType?_standard {op : Operator} {operands : List ValueType}
    {type : ValueType} (h : op.descriptor.resolve operands = .ok (some type)) :
    standard.resultType? op operands = some type := by
  simp only [resultType?, get?_standard, h]

namespace Expr

mutual

/-- The nodes of a tree that stands at a place, each with its own place. -/
def nodes (place : NodePlace) : Expr → List (NodePlace × Expr)
  | .literal note l => [(place, .literal note l)]
  | .property note ref => [(place, .property note ref)]
  | .member note path target =>
    (place, .member note path target) :: (path.nodes .path ++ target.nodes (.target path.type))
  | .unary note op operand => (place, .unary note op operand) :: operand.nodes .operand
  | .binary note op left right =>
    (place, .binary note op left right) :: (left.nodes .operand ++ right.nodes .operand)
  | .call note method arguments => (place, .call note method arguments) :: argumentNodes arguments

/-- The nodes of the arguments of a call. -/
def argumentNodes : List Expr → List (NodePlace × Expr)
  | [] => []
  | e :: rest => e.nodes .operand ++ argumentNodes rest

end

/-- The type of a node at a place is the one that its own parts give, in a tree over an entity. -/
def ObeysTyping (model : Model) (entity : ValueType) (place : NodePlace) : Expr → Prop
  | .literal note l => note.type = .simple l.type
  | .property note ref => Names model (place.owner entity) ref.name ref note.type
  | .member note path target =>
    path.type.isStructural = true ∧ target.kind = .property ∧ note.type = target.type
  | .unary note op operand =>
    OperatorTable.standard.resultType? (.unary op) [operand.type] = some note.type
  | .binary note op left right =>
    OperatorTable.standard.resultType? (.binary op) [left.type, right.type] = some note.type
  | .call note method arguments =>
    OperatorTable.standard.resultType? (.method method) (arguments.map Expr.type) = some note.type

/-- A node at a place has the type that its parts give, a system type only if it is a literal, and a
structured type only if it is no operand. -/
structure WellTypedAt (model : Model) (entity : ValueType) (place : NodePlace) (e : Expr) :
    Prop where
  rule : e.ObeysTyping model entity place
  system : ∀ t, e.type = .simple t → t.isSystem = true → e.kind = .literal
  structural : e.type.isStructural = true → place ≠ .operand

end Expr

/-- No name stands for a value of a system type. -/
theorem Names.not_isSystem {model : Model} (hm : model.hasPublicTypes = true) {owner : ValueType}
    {name : String} {ref : PropertyRef} {type : ValueType} (h : Names model owner name ref type)
    {t : SimpleType} (ht : type = .simple t) : ¬ t.isSystem = true := by
  cases h with
  | @property p hp =>
    have hpublic := Model.isPublic_of_property? hm hp
    cases hp : p.type with
    | simple s =>
      rw [hp] at ht hpublic
      cases ht
      simpa [PropertyType.isPublic] using hpublic
    | complex name =>
      rw [hp] at ht
      cases ht
  | navigation _ _ _ => cases ht

namespace Expr

variable {model : Model} {entity : ValueType}

theorem exists_of_mem_argumentNodes {es : List Expr} {x : NodePlace × Expr}
    (h : x ∈ argumentNodes es) : ∃ e ∈ es, x ∈ e.nodes .operand := by
  induction es with
  | nil => cases h
  | cons e rest ih =>
    rcases List.mem_append.mp h with h | h
    · exact ⟨e, List.mem_cons_self, h⟩
    · obtain ⟨e', he', h'⟩ := ih h
      exact ⟨e', List.mem_cons_of_mem _ he', h'⟩

/-- A node whose type an operator gives is well typed by the operator's rule. -/
private theorem wellTypedAt_of_resolve {place : NodePlace} {e : Expr} {op : Operator}
    {operands : List ValueType} (hc : op.descriptor.resolve operands = .ok (some e.type))
    (hop : op ≠ .member) (hrule : e.ObeysTyping model entity place) :
    e.WellTypedAt model entity place := by
  obtain ⟨s, htype, hs⟩ := Operator.isSystem_of_result hc hop
  refine ⟨hrule, ?_, ?_⟩
  · intro t ht hsystem
    rw [htype] at ht
    cases ht
    rw [hs] at hsystem
    cases hsystem
  · intro hstructural
    rw [htype] at hstructural
    cases hstructural

/-- All nodes of a resolved tree are well typed where they stand. -/
theorem Resolved.wellTypedAt (hm : model.hasPublicTypes = true) {e : Expr}
    (h : e.Resolved model entity) : ∀ place : NodePlace, place.owner entity = entity →
      (e.type.isStructural = true → place ≠ .operand) →
      ∀ x ∈ e.nodes place, x.2.WellTypedAt model entity x.1 := by
  induction h with
  | literal ht _ =>
    intro place _ hplace x hx
    obtain rfl := List.mem_singleton.mp hx
    exact ⟨ht, fun _ _ _ => rfl, hplace⟩
  | property hr =>
    intro place howner hplace x hx
    obtain rfl := List.mem_singleton.mp hx
    refine ⟨?_, fun t ht hsystem => absurd hsystem (hr.not_isSystem hm ht), hplace⟩
    rw [ObeysTyping, howner]
    exact hr
  | @member note note' path ref _ hs hr ht ih =>
    intro place _ hplace x hx
    simp only [nodes, List.mem_cons, List.mem_append, List.not_mem_nil, or_false] at hx
    rcases hx with rfl | hx | rfl
    · exact ⟨⟨hs, rfl, ht⟩, fun t htype hsystem =>
        absurd hsystem (hr.not_isSystem hm (ht.symm.trans htype)), hplace⟩
    · exact ih .path rfl (fun _ => by simp) x hx
    · exact ⟨hr, fun t htype hsystem => absurd hsystem (hr.not_isSystem hm htype), fun _ => by simp⟩
  | unary _ hc ih =>
    intro place _ _ x hx
    rcases List.mem_cons.mp hx with rfl | hx
    · exact wellTypedAt_of_resolve hc (by simp) (OperatorTable.resultType?_standard hc)
    · have hsimple := Operator.isStructural_of_operand hc (by simp) List.mem_cons_self
      exact ih .operand rfl (fun hs => absurd hs (by simp [hsimple])) x hx
  | binary _ _ hc ihl ihr =>
    intro place _ _ x hx
    simp only [nodes, List.mem_cons, List.mem_append] at hx
    rcases hx with rfl | hx | hx
    · exact wellTypedAt_of_resolve hc (by simp) (OperatorTable.resultType?_standard hc)
    · have hsimple := Operator.isStructural_of_operand hc (by simp) List.mem_cons_self
      exact ihl .operand rfl (fun hs => absurd hs (by simp [hsimple])) x hx
    · have hsimple := Operator.isStructural_of_operand hc (by simp)
        (List.mem_cons_of_mem _ List.mem_cons_self)
      exact ihr .operand rfl (fun hs => absurd hs (by simp [hsimple])) x hx
  | call _ hc ih =>
    intro place _ _ x hx
    rcases List.mem_cons.mp hx with rfl | hx
    · exact wellTypedAt_of_resolve hc (by simp) (OperatorTable.resultType?_standard hc)
    · obtain ⟨e, he, hx⟩ := exists_of_mem_argumentNodes hx
      have hsimple := Operator.isStructural_of_operand hc (by simp) (List.mem_map_of_mem he)
      exact ih e he .operand rfl (fun hs => absurd hs (by simp [hsimple])) x hx

end Expr

/-- Every node of an expression that was read over a model from a document is well typed. -/
theorem wellTypedAt_of_parseExpression (document : Json) (model : Model) (entityType : EntityType)
    (input : String) (e : Expr) (hm : Model.ofJson? document = some model)
    (h : parseExpression model entityType input = .ok e) :
    ∀ node ∈ e.nodes .root, node.2.WellTypedAt model (.entity entityType.name) node.1 :=
  (resolved_of_parseExpression h).wellTypedAt (Model.hasPublicTypes_of_ofJson? hm) .root rfl
    fun _ => by simp

/-- A path through a team and its address, a call, a sign and a literal of a system type. -/
theorem wellTypedAt_sample : ∃ e,
    parseExpression leagueModel sampleType
      "substringof('x', host/address.city) eq true and -home lt 3" =
      .ok e ∧
    (e.nodes .root).length = 14 ∧
    ∀ node ∈ e.nodes .root, node.2.WellTypedAt leagueModel (.entity "Match") node.1 := by
  obtain ⟨e, he, hlength⟩ := @exists_ok_of_any _ _ (parseExpression leagueModel sampleType
    "substringof('x', host/address.city) eq true and -home lt 3")
    (fun e => (e.nodes .root).length == 14) (by decide +kernel)
  have hm : Model.ofJson? leagueModel.toJson = some leagueModel := by decide +kernel
  exact ⟨e, he, by simpa using hlength,
    wellTypedAt_of_parseExpression leagueModel.toJson leagueModel sampleType _ e hm he⟩

end EntityQuery
