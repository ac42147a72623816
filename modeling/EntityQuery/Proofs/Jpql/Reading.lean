import EntityQuery.Proofs.Jpql.Spelling

/-!
# What the reader finds in rendered expressions

Parentheses stand where the operators around an operand would otherwise take it apart, so the reader
finds the phrase of every expression without calls, with its chains grouped to the left.
-/

namespace EntityQuery

namespace Expr

open Jpql (Phrase minusStrength)

theorem rendered_of_isPath {qualifier : String} {e : Expr} (h : e.isPath = true) :
    e.rendered qualifier = .path (e.pathText qualifier) := by
  cases e with
  | property note ref => rfl
  | member note base target => rfl
  | _ => cases h

theorem strength_of_isPath {e : Expr} (h : e.isPath = true) : e.strength = atomStrength := by
  cases e with
  | property note ref => rfl
  | member note base target => rfl
  | _ => cases h

theorem strength_pos (e : Expr) : 1 ≤ e.strength := by
  unfold strength
  split
  · next op _ _ => exact op.strength_pos
  · decide
  · decide

/-- An operand without parentheses binds at least as tightly as the operator, and tighter than a
comparison. -/
theorem strength_of_needsParen {op : BinaryOperator} {isRight : Bool} {e : Expr}
    (h : e.needsParen op isRight = false) :
    op.strength ≤ e.strength ∧ (op.strength = comparisonStrength → op.strength < e.strength) := by
  unfold needsParen at h
  split at h
  · cases h
  · next hge =>
    have hle : op.strength ≤ e.strength := Nat.le_of_not_lt hge
    refine ⟨hle, fun hop => ?_⟩
    split at h
    · next hlt => exact hlt
    · cases h

private theorem strength_of_isAtom {qualifier : String} {e : Expr}
    (h : (e.rendered qualifier).isAtom = true) : e.strength = atomStrength := by
  cases e with
  | unary note op operand =>
    cases op with
    | not => rfl
    | negate => cases h
  | binary note op left right =>
    by_cases hop : op = .mod
    · subst hop
      rfl
    · rw [Jpql.isAtom_rendered_binary hop] at h
      cases h
  | _ => rfl

@[simp]
theorem regrouped_groupIf (needed : Bool) (p : Phrase) :
    (p.groupIf needed).regrouped = p.regrouped.groupIf needed := by
  cases needed <;> rfl

private theorem strength_nullTest (op : BinaryOperator) (p : Phrase) :
    (p.nullTest op).strength = comparisonStrength := by
  unfold Phrase.nullTest
  split <;> rfl

theorem strength_ofLiteral (l : Literal) : (Phrase.ofLiteral l).strength = atomStrength := by
  unfold Phrase.ofLiteral
  split
  · rfl
  · unfold Phrase.ofText
    split <;> rfl

theorem strength_le_rendered (qualifier : String) (e : Expr) :
    e.strength ≤ (e.rendered qualifier).strength := by
  cases e with
  | literal note l =>
    exact Nat.le_of_eq (strength_ofLiteral l).symm
  | unary note op operand =>
    cases op with
    | not => exact Nat.le_refl atomStrength
    | negate => exact Nat.le_of_lt (by decide : minusStrength < atomStrength)
  | binary note op left right =>
    rw [rendered, strength]
    split
    · next h =>
      rw [strength_nullTest]
      exact Nat.le_of_eq (op.strength_of_isEquality (Bool.and_eq_true_iff.mp h).1)
    · split
      · next h =>
        rw [strength_nullTest]
        exact Nat.le_of_eq (op.strength_of_isEquality (Bool.and_eq_true_iff.mp h).1)
      · split
        · exact op.strength_le
        · exact Nat.le_refl _
  | _ => exact Nat.le_refl _

/-- Without a chain, a right operand without parentheses binds tighter than its operator. -/
theorem strength_lt_of_needsParen {op : BinaryOperator} {e : Expr}
    (h : e.needsParen op true = false) (hchain : (op.isAssociative && e.isChainOf op) = false) :
    op.strength < e.strength := by
  have hle := (strength_of_needsParen h).1
  by_cases heq : op.strength = e.strength
  · unfold needsParen at h
    rw [if_neg (by omega), if_neg (by omega)] at h
    simp [hchain] at h
  · omega

/-- A right operand that does not go on the operator's own chain is a group, or its root binds
tighter. -/
theorem strength_rightOperand_ne {qualifier : String} {op : BinaryOperator} (hop : op ≠ .mod)
    {e : Expr} (hchain : (op.isAssociative && e.isChainOf op) = false) :
    ((e.rendered qualifier).groupIf (e.needsParen op true)).regrouped.strength ≠ op.strength := by
  rw [Phrase.strength_regrouped]
  cases hparen : e.needsParen op true with
  | true => exact Nat.ne_of_gt (op.strength_lt hop)
  | false =>
    have hlt := strength_lt_of_needsParen hparen hchain
    have hle := strength_le_rendered qualifier e
    exact Nat.ne_of_gt (Nat.lt_of_lt_of_le hlt hle)

@[simp]
theorem regrouped_ofLiteral (l : Literal) :
    (Phrase.ofLiteral l).regrouped = Phrase.ofLiteral l := by
  unfold Phrase.ofLiteral
  split
  · rfl
  · unfold Phrase.ofText
    split <;> rfl

@[simp]
theorem regrouped_nullTest (op : BinaryOperator) (p : Phrase) :
    (p.nullTest op).regrouped = p.regrouped.nullTest op := by
  unfold Phrase.nullTest
  split <;> rfl

/-- The phrase is read for the expression: the reader finds it where nothing tighter than the root
of the expression stands around it, and nothing as tight as `limit` behind it. -/
def Found (negation limit : Nat) (e : Expr) (p : Phrase) : Prop :=
  ∀ least after : Nat, least ≤ e.strength → after ≤ e.strength → after < limit →
    p.Stable negation least after

section Found

variable {negation limit : Nat} {e : Expr} {p : Phrase}

theorem Found.group (h : e.Found negation limit p) (hlimit : 0 < limit) : p.Stable negation 1 0 :=
  h 1 0 e.strength_pos (Nat.zero_le _) hlimit

theorem Found.groupIf (h : e.Found negation limit p) {needed : Bool} {least after : Nat}
    (hneeded : needed = false → least ≤ e.strength ∧ after ≤ e.strength) (hafter : after < limit) :
    (p.groupIf needed).Stable negation least after := by
  cases needed with
  | true => exact h.group (Nat.zero_lt_of_lt hafter)
  | false => exact h least after (hneeded rfl).1 (hneeded rfl).2 hafter

theorem Found.literal (note : Annotation) (l : Literal) :
    Found negation minusStrength (.literal note l) (Phrase.ofLiteral l) := by
  intro least after _ _ hafter
  rw [Phrase.ofLiteral]
  split
  · trivial
  · unfold Phrase.ofText
    split
    · exact ⟨hafter, trivial⟩
    · trivial

/-- A sign is found with an operand in parentheses, unless the operand is an atom. -/
theorem Found.negate (h : e.Found negation minusStrength p) {needed : Bool}
    (hneeded : needed = false → atomStrength ≤ e.strength) (note : Annotation) :
    Found negation minusStrength (.unary note .negate e) (.negate (p.groupIf needed)) := by
  intro least after _ _ hafter
  refine ⟨hafter, h.groupIf (fun hn => ?_) hafter⟩
  have hatom := hneeded hn
  have hminus : minusStrength ≤ atomStrength := by decide
  exact ⟨by omega, by omega⟩

/-- Behind its groups, an operand of a comparison is no comparison. -/
theorem Found.not_test (h : e.Found negation limit p) (hlimit : 0 < limit) {needed : Bool}
    (hneeded : needed = false → comparisonStrength < e.strength) :
    (p.groupIf needed).strength ≠ comparisonStrength := by
  have hstable : (p.groupIf needed).Stable negation (comparisonStrength + 1) 0 :=
    h.groupIf (fun hn => ⟨hneeded hn, Nat.zero_le _⟩) hlimit
  have hle := hstable.least_le (by decide)
  omega

/-- An operator that is no comparison is found with its operands grafted together. -/
theorem Found.graft {left right : Expr} {l r : Phrase} (hl : left.Found negation limit l)
    (hr : right.Found negation limit r) {op : BinaryOperator} (hop : op.strength < limit)
    (htest : op.strength ≠ comparisonStrength) {least after : Nat} (hleast : least ≤ op.strength)
    (hafter : after ≤ op.strength) :
    (Phrase.graft op (l.groupIf (left.needsParen op false))
      (r.groupIf (right.needsParen op true))).Stable negation least after := by
  have hleft : (l.groupIf (left.needsParen op false)).Stable negation least op.strength := by
    refine hl.groupIf (fun hn => ?_) hop
    have hle := (strength_of_needsParen hn).1
    exact ⟨Nat.le_trans hleast hle, hle⟩
  have hright : (r.groupIf (right.needsParen op true)).Stable negation op.strength after := by
    refine hr.groupIf (fun hn => ?_) (Nat.lt_of_le_of_lt hafter hop)
    have hle := (strength_of_needsParen hn).1
    exact ⟨hle, Nat.le_trans hafter hle⟩
  exact Phrase.stable_graft htest hleast hafter hleft hright

end Found

/-! ### Negations as atoms -/

private theorem found_nullTest {e : Expr} {p : Phrase} (h : e.Found atomStrength minusStrength p)
    {op : BinaryOperator} {least after : Nat} (hleast : least ≤ comparisonStrength)
    (hafter : after ≤ comparisonStrength) :
    ((p.groupIf (decide (e.strength ≤ comparisonStrength))).nullTest op).Stable
      atomStrength least after := by
  have hne := h.not_test (by decide) fun hn : decide (e.strength ≤ comparisonStrength) = false =>
    Nat.lt_of_not_le (of_decide_eq_false hn)
  have hx : (p.groupIf (decide (e.strength ≤ comparisonStrength))).Stable
      atomStrength least comparisonStrength := by
    refine h.groupIf (fun hn => ?_) (by decide)
    have hlt := Nat.lt_of_not_le (of_decide_eq_false hn)
    exact ⟨by omega, by omega⟩
  unfold Phrase.nullTest
  split
  · exact ⟨hleast, hafter, hne, hx⟩
  · exact ⟨hleast, hafter, hne, hx⟩

/-- Both operands of a comparison bind tighter, so there is no chain to graft onto. -/
private theorem found_comparison {left right : Expr} {l r : Phrase}
    (hl : left.Found atomStrength minusStrength l) (hr : right.Found atomStrength minusStrength r)
    {op : BinaryOperator} (htest : op.strength = comparisonStrength) {least after : Nat}
    (hleast : least ≤ op.strength) (hafter : after ≤ op.strength) :
    (Phrase.graft op (l.groupIf (left.needsParen op false))
      (r.groupIf (right.needsParen op true))).Stable atomStrength least after := by
  have hminus : op.strength < minusStrength := by rw [htest]; decide
  have hleft : (l.groupIf (left.needsParen op false)).Stable atomStrength least op.strength := by
    refine hl.groupIf (fun hn => ?_) hminus
    have hle := (strength_of_needsParen hn).1
    exact ⟨Nat.le_trans hleast hle, hle⟩
  have hright : (r.groupIf (right.needsParen op true)).Stable atomStrength
      (op.strength + 1) after := by
    refine hr.groupIf (fun hn => ?_) (by omega)
    have hlt := (strength_of_needsParen hn).2 htest
    exact ⟨hlt, by omega⟩
  have hlne := hl.not_test (by decide) fun hn : left.needsParen op false = false => by
    have hlt := (strength_of_needsParen hn).2 htest
    omega
  have hrne := hr.not_test (by decide) fun hn : right.needsParen op true = false => by
    have hlt := (strength_of_needsParen hn).2 htest
    omega
  rw [Phrase.graft_of_ne _ (by rw [htest]; exact hrne)]
  exact ⟨hleast, hafter, fun _ => hlne, hleft, hright⟩

private theorem found_binary {left right : Expr} {l r : Phrase}
    (hl : left.Found atomStrength minusStrength l) (hr : right.Found atomStrength minusStrength r)
    {op : BinaryOperator} (hop : op ≠ .mod) {least after : Nat} (hleast : least ≤ op.strength)
    (hafter : after ≤ op.strength) :
    (Phrase.graft op (l.groupIf (left.needsParen op false))
      (r.groupIf (right.needsParen op true))).Stable atomStrength least after := by
  by_cases htest : op.strength = comparisonStrength
  · exact found_comparison hl hr htest hleast hafter
  · exact hl.graft hr (op.strength_lt_minus hop) htest hleast hafter

/-- The reader finds the phrase of an expression, with its chains grouped to the left. -/
private theorem found_of_isRenderable (qualifier : String) {e : Expr} (h : e.isRenderable = true) :
    e.Found atomStrength minusStrength (e.rendered qualifier).regrouped := by
  fun_induction isRenderable e with
  | case1 note l =>
    rw [rendered, regrouped_ofLiteral]
    exact .literal note l
  | case2 note ref => exact fun _ _ _ _ _ => trivial
  | case3 note base note' ref ih => exact fun _ _ _ _ _ => trivial
  | case4 note base target => exact absurd h (by simp)
  | case5 note op operand ih =>
    rw [Bool.and_eq_true] at h
    have hx := ih h.2
    cases op with
    | not => exact fun _ _ _ _ hafter => ⟨Nat.lt_trans hafter (by decide), hx.group (by decide)⟩
    | negate =>
      rw [rendered, Phrase.regrouped, regrouped_groupIf]
      refine hx.negate (fun hn => ?_) note
      have hatom : (operand.rendered qualifier).isAtom = true := by simpa using hn
      exact Nat.le_of_eq (strength_of_isAtom hatom).symm
  | case6 note op left right ihl ihr =>
    simp only [Bool.and_eq_true] at h
    have hl := ihl h.1.2
    have hr := ihr h.2
    intro least after hleast hafter _
    rw [rendered]
    split
    · next hb =>
      have hop := op.strength_of_isEquality (Bool.and_eq_true_iff.mp hb).1
      rw [regrouped_nullTest, regrouped_groupIf]
      exact found_nullTest hl (hop ▸ hleast) (hop ▸ hafter)
    · split
      · next hb =>
        have hop := op.strength_of_isEquality (Bool.and_eq_true_iff.mp hb).1
        rw [regrouped_nullTest, regrouped_groupIf]
        exact found_nullTest hr (hop ▸ hleast) (hop ▸ hafter)
      · split
        · exact ⟨hl.group (by decide), hr.group (by decide)⟩
        · next hop =>
          rw [Phrase.regrouped, regrouped_groupIf, regrouped_groupIf]
          exact found_binary hl hr hop hleast hafter
  | case7 note method arguments => exact absurd h (by simp)

end Expr

/-- The text of an expression without calls is read as the expression's phrase with its chains
grouped to the left. -/
theorem read_translate {qualifier : String} (hq : Text.isPlainName qualifier = true) {e : Expr}
    (h : e.isRenderable = true) (hs : e.type.isStructural = false) :
    ∃ text, translate qualifier e = .ok text ∧
      Jpql.read atomStrength text = some (e.rendered qualifier).regrouped := by
  obtain ⟨j, hj, hspells⟩ := Jpql.ofExpr_spells hq h
  refine ⟨j.text, ?_, ?_⟩
  · rw [translate, hs, hj]
    rfl
  · -- Regrouping keeps the words, so the text spells the regrouped phrase as well.
    have hstable := (Expr.found_of_isRenderable qualifier h).group (by decide)
    rw [← Jpql.Phrase.words_regrouped] at hspells
    exact Jpql.read_of_spells hstable hspells

end EntityQuery
