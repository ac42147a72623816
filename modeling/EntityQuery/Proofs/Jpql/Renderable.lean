import EntityQuery.Proofs.Expr.Resolved
import EntityQuery.Proofs.Jpql.Reading
import EntityQuery.Proofs.Operator.Resolution

/-!
# Expressions that were read can be rendered

Over a model whose names in the store are plain, every expression that was read and has no call in
it is renderable: its decimals are numerals because they were cut from the text as such, and its
paths are made of names of the model.
-/

namespace EntityQuery

/-- Whether the store knows all properties and navigation properties by plain names. -/
def Model.hasPlainNames (m : Model) : Bool :=
  m.entityTypes.all (fun t => t.properties.all (fun p => Text.isPlainName p.internalName) &&
    t.navigationProperties.all fun p => Text.isPlainName p.internalName) &&
  m.complexTypes.all fun t => t.properties.all fun p => Text.isPlainName p.internalName

theorem Model.hasPlainNames_eq (m : Model) : m.hasPlainNames = m.allNames Text.isPlainName := rfl

namespace Expr

/-- Whether a call stands in the expression. -/
def hasCall : Expr → Bool
  | .literal _ _ | .property _ _ => false
  | .member _ path target => path.hasCall || target.hasCall
  | .unary _ _ operand => operand.hasCall
  | .binary _ _ left right => left.hasCall || right.hasCall
  | .call _ _ _ => true

theorem hasCall_of_isPath {e : Expr} (h : e.isPath = true) : e.hasCall = false := by
  fun_induction isPath e with
  | case1 note ref => rfl
  | case2 note base note' ref ih => rw [hasCall, ih h]; rfl
  | case3 => cases h

variable {model : Model} {entity : ValueType} {e : Expr}

/-- Of the resolved trees only paths are structured. -/
theorem Resolved.isPath (h : e.Resolved model entity) (hs : e.type.isStructural = true) :
    e.isPath = true := by
  have hresult {op : Operator} {operands : List ValueType} {type : ValueType}
      (hc : op.descriptor.resolve operands = .ok (some type)) (hop : op ≠ .member) :
      type.isStructural ≠ true := by
    simp [Operator.isStructural_of_result hc hop]
  induction h with
  | literal ht _ => exact absurd hs (by simp [type, note, ht, ValueType.isStructural])
  | property _ => rfl
  | member _ hpath _ _ ih => exact ih hpath
  | unary _ hc _ => exact absurd hs (hresult hc (by simp))
  | binary _ _ hc _ _ => exact absurd hs (hresult hc (by simp))
  | call _ hc _ => exact absurd hs (hresult hc (by simp))

/-- A resolved tree over a model with plain names that has no call is renderable. -/
theorem Resolved.isRenderable (hm : model.hasPlainNames = true) (h : e.Resolved model entity)
    (hc : e.hasCall = false) : e.isRenderable = true := by
  rw [Model.hasPlainNames_eq] at hm
  induction h with
  | literal ht hl => simp [Expr.isRenderable, ht, hl, ValueType.isStructural]
  | property hr => exact hr.test hm
  | member hp hs hr _ ih =>
    simp only [hasCall, Bool.or_eq_false_iff] at hc
    simp only [Expr.isRenderable, Bool.and_eq_true]
    exact ⟨⟨hp.isPath hs, ih hc.1⟩, hr.test hm⟩
  | unary _ hresolve ih =>
    rw [hasCall] at hc
    simp only [Expr.isRenderable, Operator.isStructural_of_result hresolve (by simp), ih hc]
    rfl
  | binary _ _ hresolve ihl ihr =>
    simp only [hasCall, Bool.or_eq_false_iff] at hc
    simp only [Expr.isRenderable, Operator.isStructural_of_result hresolve (by simp), ihl hc.1,
      ihr hc.2]
    rfl
  | call _ _ _ => cases hc

end Expr

/-- An expression that was read over a model with plain names and has no call is renderable. -/
theorem isRenderable_of_parseExpression {m : Model} {entityType : EntityType} {input : String}
    {e : Expr} (hm : m.hasPlainNames = true) (h : parseExpression m entityType input = .ok e)
    (hc : e.hasCall = false) : e.isRenderable = true :=
  (resolved_of_parseExpression h).isRenderable hm hc

end EntityQuery
