import EntityQuery.Proofs.Jpql.Renderable

/-!
# Rendering keeps the grouping

The text of an expression is read back to the expression's own tree: parentheses stand wherever the
reader would otherwise group differently. Only a chain of one associative operator that groups to
the right is written without them.
-/

namespace EntityQuery

open Jpql (Phrase)

namespace Expr

/-- The tree of an expression as a phrase without groups. Leaves are their texts, a comparison with
`null` on either side is a null test, and the sign of a negative numeral stands apart. -/
def skeleton (qualifier : String) : Expr → Phrase
  | .literal _ l => .ofLiteral l
  | .unary _ .not operand => .not (operand.skeleton qualifier)
  | .unary _ .negate operand => .negate (operand.skeleton qualifier)
  | .binary _ op left right =>
    if op.isEquality && right.isNull then .nullTest op (left.skeleton qualifier)
    else if op.isEquality && left.isNull then .nullTest op (right.skeleton qualifier)
    else if op = .mod then .modulo (left.skeleton qualifier) (right.skeleton qualifier)
    else .binary op (left.skeleton qualifier) (right.skeleton qualifier)
  | e => .path (e.pathText qualifier)

/-- Whether some associative operator has the same operator at the root of its right operand. -/
def hasRightChain : Expr → Bool
  | .literal _ _ | .property _ _ | .member _ _ _ | .call _ _ _ => false
  | .unary _ _ operand => operand.hasRightChain
  | .binary _ op left right =>
    (op.isAssociative && right.isChainOf op) || left.hasRightChain || right.hasRightChain

/-! ### Groups -/

private theorem ungrouped_groupIf (needed : Bool) (p : Phrase) :
    (p.groupIf needed).ungrouped = p.ungrouped := by
  cases needed <;> rfl

private theorem ungrouped_nullTest (op : BinaryOperator) (p : Phrase) :
    (p.nullTest op).ungrouped = p.ungrouped.nullTest op := by
  unfold Phrase.nullTest
  split <;> rfl

private theorem ungrouped_ofLiteral (l : Literal) :
    (Phrase.ofLiteral l).ungrouped = Phrase.ofLiteral l := by
  unfold Phrase.ofLiteral
  split
  · rfl
  · unfold Phrase.ofText
    split <;> rfl

/-- Behind its groups, the phrase of an expression is the expression's tree. -/
theorem ungrouped_rendered (qualifier : String) (e : Expr) :
    (e.rendered qualifier).ungrouped = e.skeleton qualifier := by
  fun_induction rendered qualifier e with
  | case1 note l => exact ungrouped_ofLiteral l
  | case2 note operand ih => rw [skeleton, ← ih]; rfl
  | case3 note operand ih => rw [skeleton, ← ih, Phrase.ungrouped, ungrouped_groupIf]
  | case4 note op left right h ih =>
    rw [skeleton, if_pos h, ungrouped_nullTest, ungrouped_groupIf, ih]
  | case5 note op left right h h' ih =>
    rw [skeleton, if_neg h, if_pos h', ungrouped_nullTest, ungrouped_groupIf, ih]
  | case6 note left right h h' ihl ihr =>
    rw [skeleton, if_neg h, if_neg h', if_pos rfl, Phrase.ungrouped, ihl, ihr]
  | case7 note op left right h h' hop ihl ihr =>
    rw [skeleton, if_neg h, if_neg h', if_neg hop, Phrase.ungrouped, ungrouped_groupIf,
      ungrouped_groupIf, ihl, ihr]
  | case8 e hliteral hnot hnegate hbinary =>
    cases e with
    | literal note l => exact absurd rfl (hliteral note l)
    | unary note op operand =>
      cases op with
      | not => exact absurd rfl (hnot note operand)
      | negate => exact absurd rfl (hnegate note operand)
    | binary note op left right => exact absurd rfl (hbinary note op left right)
    | _ => rfl

/-! ### Chains -/

/-- An expression without a chain to the right has nothing to regroup. -/
theorem regrouped_rendered (qualifier : String) {e : Expr} (h : e.hasRightChain = false) :
    (e.rendered qualifier).regrouped = e.rendered qualifier := by
  fun_induction rendered qualifier e with
  | case1 note l => exact regrouped_ofLiteral l
  | case2 note operand ih => rw [Phrase.regrouped, Phrase.regrouped, ih h]
  | case3 note operand ih => rw [Phrase.regrouped, regrouped_groupIf, ih h]
  | case4 note op left right _ ih =>
    simp only [hasRightChain, Bool.or_eq_false_iff] at h
    rw [regrouped_nullTest, regrouped_groupIf, ih h.1.2]
  | case5 note op left right _ _ ih =>
    simp only [hasRightChain, Bool.or_eq_false_iff] at h
    rw [regrouped_nullTest, regrouped_groupIf, ih h.2]
  | case6 note left right _ _ ihl ihr =>
    simp only [hasRightChain, Bool.or_eq_false_iff] at h
    rw [Phrase.regrouped, ihl h.1.2, ihr h.2]
  | case7 note op left right _ _ hop ihl ihr =>
    simp only [hasRightChain, Bool.or_eq_false_iff] at h
    rw [Phrase.regrouped, Phrase.graft_of_ne _ (strength_rightOperand_ne hop h.1.1),
      regrouped_groupIf, regrouped_groupIf, ihl h.1.2, ihr h.2]
  | case8 e => rfl

end Expr

/-- For every model, alias and text: the JPQL text of the expression that was read is read back, by
a reader with the renderer's own strengths, to the tree of the expression. -/
theorem read_translate_eq_skeleton (model : Model) (entityType : EntityType)
    (input qualifier : String) (e : Expr) (hm : model.hasPlainNames = true)
    (hq : Text.isPlainName qualifier = true)
    (h : parseExpression model entityType input = .ok e) (hs : e.type.isStructural = false)
    (hc : e.hasCall = false) (hchain : e.hasRightChain = false) :
    ∃ text, translate qualifier e = .ok text ∧
      (Jpql.read atomStrength text).map Phrase.ungrouped = some (e.skeleton qualifier) := by
  have hr := isRenderable_of_parseExpression hm h hc
  obtain ⟨text, ht, hread⟩ := read_translate hq hr hs
  refine ⟨text, ht, ?_⟩
  rw [hread, Option.map_some, Expr.regrouped_rendered qualifier hchain, Expr.ungrouped_rendered]

/-- An expression with a sign before parentheses, a sign of a numeral, a remainder, a null test with
`null` on the left, and operators of all strengths. -/
theorem read_translate_sample : ∃ e text,
    parseExpression sampleModel sampleType
      "-(home add -3) mul 2 ge away mod 5 and not (null ne final or eq)" = .ok e ∧
    translate "E1" e = .ok text ∧
    (Jpql.read atomStrength text).map Phrase.ungrouped = some (e.skeleton "E1") := by
  obtain ⟨e, he, htest⟩ := @exists_ok_of_any _ _ (parseExpression sampleModel sampleType
    "-(home add -3) mul 2 ge away mod 5 and not (null ne final or eq)")
    (fun e => !e.type.isStructural && !e.hasCall && !e.hasRightChain) (by decide +kernel)
  simp only [Bool.and_eq_true, Bool.not_eq_true'] at htest
  obtain ⟨text, ht, hread⟩ := read_translate_eq_skeleton sampleModel sampleType _ "E1" e
    (by decide +kernel) (by decide +kernel) he htest.1.1 htest.1.2 htest.2
  exact ⟨e, text, he, ht, hread⟩

end EntityQuery
