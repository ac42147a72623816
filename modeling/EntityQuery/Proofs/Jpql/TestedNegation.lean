import EntityQuery.Proofs.Jpql.Truth

/-!
# Tested negations

A filter's text has the truth value of its tree as long as no negation is the operand of a null
test: comparisons with a negation move it outside without harm. A null test never is unknown, so a
negation that moves outside of one turns its value around, whatever the paths' values are.
-/

namespace EntityQuery

open Jpql (Phrase)

/-! ### Laws of truth values -/

namespace BinaryOperator

/-- Chains of one connective may be grouped either way. -/
theorem truth_assoc {op : BinaryOperator} (hop : op.category = .logical) (x y z : Option Bool) :
    op.truth (op.truth x y) z = op.truth x (op.truth y z) := by
  cases op with
  | and => rcases x with _ | _ | _ <;> rcases y with _ | _ | _ <;> rcases z with _ | _ | _ <;> rfl
  | or => rcases x with _ | _ | _ <;> rcases y with _ | _ | _ <;> rcases z with _ | _ | _ <;> rfl
  | _ => cases hop

/-- A negation on the left of an equality may be taken outside. -/
theorem truth_not_left {op : BinaryOperator} (hop : op.isEquality = true) (x y : Option Bool) :
    op.truth (x.map fun b => !b) y = (op.truth x y).map fun b => !b := by
  cases op with
  | eq => rcases x with _ | _ | _ <;> rcases y with _ | _ | _ <;> rfl
  | ne => rcases x with _ | _ | _ <;> rcases y with _ | _ | _ <;> rfl
  | _ => cases hop

/-- A null test does not see a negation. -/
theorem nullTruth_not (op : BinaryOperator) (x : Option Bool) :
    op.nullTruth (x.map fun b => !b) = op.nullTruth x := by
  cases x <;> rfl

theorem eq_of_strength_eq {op inner : BinaryOperator} (hop : op.category = .logical)
    (h : inner.strength = op.strength) : inner = op := by
  cases op with
  | and =>
    cases inner with
    | and => rfl
    | _ => cases h
  | or =>
    cases inner with
    | or => rfl
    | _ => cases h
  | _ => cases hop

end BinaryOperator

namespace Jpql.Phrase

variable {env : String → Option Bool}

@[simp]
theorem truth_groupIf (needed : Bool) (p : Phrase) :
    (p.groupIf needed).truth env = p.truth env := by
  cases needed <;> rfl

@[simp]
theorem truth_nullTest (op : BinaryOperator) (p : Phrase) :
    (p.nullTest op).truth env = op.nullTruth (p.truth env) := by
  unfold nullTest
  split
  · next hop =>
    subst hop
    rfl
  · next hop =>
    show some _ = some _
    rw [if_neg hop]
    rfl

/-- Regrouping a chain of one connective keeps its truth value. -/
theorem truth_graft {op : BinaryOperator} (hop : op.category = .logical) (l r : Phrase) :
    (graft op l r).truth env = op.truth (l.truth env) (r.truth env) := by
  induction r with
  | binary inner a b iha _ =>
    rw [graft]
    split
    · next h =>
      obtain rfl := BinaryOperator.eq_of_strength_eq hop h
      rw [truth, iha, truth, BinaryOperator.truth_assoc hop]
    · rfl
  | _ => rfl

theorem truth_under_equality {op : BinaryOperator} (hop : op.isEquality = true) (l r : Phrase) :
    (under (.binary op · r) l).truth env = op.truth (l.truth env) (r.truth env) := by
  cases l with
  | not x => exact (BinaryOperator.truth_not_left hop (x.truth env) (r.truth env)).symm
  | _ => rfl

end Jpql.Phrase

namespace Expr

variable {qualifier : String} {env : String → Option Bool}

/-! ### Filters without tested negations -/

theorem truth_of_isPath {e : Expr} (h : e.isPath = true) :
    e.truth qualifier env = env (e.pathText qualifier) := by
  cases e with
  | property note ref => rfl
  | member note base target => exact if_pos h
  | _ => cases h

theorem truth_connective {op : BinaryOperator} (hop : op.category = .logical) (note : Annotation)
    (left right : Expr) :
    truth qualifier env (.binary note op left right) =
      op.truth (left.truth qualifier env) (right.truth qualifier env) := by
  cases op with
  | and => rfl
  | or => rfl
  | _ => cases hop

theorem truth_equality {op : BinaryOperator} (hop : op.isEquality = true) (note : Annotation)
    (left right : Expr) :
    truth qualifier env (.binary note op left right) =
      if right.isNull then op.nullTruth (left.truth qualifier env)
      else if left.isNull then op.nullTruth (right.truth qualifier env)
      else op.truth (left.truth qualifier env) (right.truth qualifier env) := by
  rw [truth, hop, Bool.true_and, Bool.true_and]

theorem truth_lowered_tested (e : Expr) :
    (e.tested qualifier).lowered.truth env = (e.rendered qualifier).lowered.truth env := by
  rw [tested, lowered_groupIf, Phrase.truth_groupIf]

/-- A test of anything but a negation has its operand in front. -/
private theorem under_tested {e : Expr} (h : e.Logical) (hn : e.isNegation = false)
    (f : Phrase → Phrase) :
    Phrase.under f (e.tested qualifier).lowered = f (e.tested qualifier).lowered := by
  cases h with
  | boolean note type b =>
    rw [tested_boolean]
    rfl
  | null note type => rfl
  | path hp =>
    rw [tested_of_isPath hp]
    rfl
  | not note _ => cases hn
  | connective note hop _ _ =>
    rw [tested_of_le (strength_le_of_logical hop ..)]
    rfl
  | equality note hop _ _ =>
    rw [tested_of_le (strength_le_of_isEquality hop ..)]
    rfl

private theorem truth_nullTest_tested {op : BinaryOperator} {e : Expr} (h : e.Logical)
    (hn : e.isNegation = false)
    (ht : (e.rendered qualifier).lowered.truth env = e.truth qualifier env) :
    (Phrase.under (Phrase.nullTest op) (e.tested qualifier).lowered).truth env =
      op.nullTruth (e.truth qualifier env) := by
  rw [under_tested h hn, Phrase.truth_nullTest, truth_lowered_tested, ht]

/-- Without tested negations, the text is read to the truth value of the tree. -/
theorem Logical.truth_lowered {e : Expr} (h : e.Logical) (hn : e.testsNegation = false) :
    (e.rendered qualifier).lowered.truth env = e.truth qualifier env := by
  induction h with
  | boolean note type b =>
    rw [rendered_boolean]
    cases b <;> rfl
  | null note type => rfl
  | path hp =>
    rw [rendered_of_isPath hp, truth_of_isPath hp]
    rfl
  | not note _ ih => exact congrArg (Option.map fun b => !b) (ih hn)
  | @connective note op left right hop _ _ ihl ihr =>
    simp only [testsNegation, Bool.or_eq_false_iff] at hn
    rw [lowered_connective hop, Phrase.truth_graft hop, Phrase.truth_groupIf, Phrase.truth_groupIf,
      ihl hn.1.2, ihr hn.2, truth_connective hop]
  | @equality note op left right hop hl hr ihl ihr =>
    simp only [testsNegation, hop, Bool.true_and, Bool.or_eq_false_iff] at hn
    obtain ⟨⟨⟨hleft, hright⟩, hnl⟩, hnr⟩ := hn
    rw [lowered_equality hop, truth_equality hop]
    split
    · next hnull =>
      rw [hnull, Bool.true_and] at hleft
      exact truth_nullTest_tested hl hleft (ihl hnl)
    · split
      · next hnull =>
        rw [hnull, Bool.true_and] at hright
        exact truth_nullTest_tested hr hright (ihr hnr)
      · -- A negation on the left moves outside, which an equality does not notice.
        rw [Phrase.truth_under_equality hop, truth_lowered_tested, truth_lowered_tested, ihl hnl,
          ihr hnr]

/-! ### Tested negations -/

theorem isNegation_of_isPath {e : Expr} (h : e.isPath = true) : e.isNegation = false := by
  cases e with
  | property note ref => rfl
  | member note base target => rfl
  | _ => cases h

theorem isNegation_of_isNull {e : Expr} (h : e.isNull = true) : e.isNegation = false := by
  cases e with
  | literal note l => rfl
  | _ => cases h

theorem testsNegation_of_isPath {e : Expr} (h : e.isPath = true) : e.testsNegation = false := by
  cases e with
  | property note ref => rfl
  | member note base target => rfl
  | _ => cases h

/-- The negation moves outside of the test, which has the other value there. -/
private theorem truth_nullTest_negation {op : BinaryOperator} {e : Expr} (h : e.Logical)
    (hneg : e.isNegation = true) (hn : e.testsNegation = false) :
    (Phrase.under (Phrase.nullTest op) (e.tested qualifier).lowered).truth env ≠
      op.nullTruth (e.truth qualifier env) := by
  cases h with
  | @not note operand hx =>
    have hvalue := @Logical.truth_lowered qualifier env _ hx hn
    show (Phrase.not (.nullTest op (.group (operand.rendered qualifier).lowered))).truth env ≠ _
    rw [truth, Phrase.truth, Phrase.truth_nullTest, Phrase.truth, hvalue, op.nullTruth_not]
    simp [BinaryOperator.nullTruth]
  | path hp =>
    rw [isNegation_of_isPath hp] at hneg
    cases hneg
  | _ => cases hneg

private theorem mem_subexpressions_self (e : Expr) : e ∈ e.subexpressions := by
  unfold subexpressions
  split <;> exact List.mem_cons_self

private theorem exists_subexpression {P : Expr → Prop} {note : Annotation} {op : BinaryOperator}
    {left right : Expr}
    (h : (∃ s ∈ left.subexpressions, P s) ∨ ∃ s ∈ right.subexpressions, P s) :
    ∃ s ∈ (Expr.binary note op left right).subexpressions, P s := by
  rcases h with ⟨s, hs, hp⟩ | ⟨s, hs, hp⟩
  · exact ⟨s, List.mem_cons_of_mem _ (List.mem_append_left _ hs), hp⟩
  · exact ⟨s, List.mem_cons_of_mem _ (List.mem_append_right _ hs), hp⟩

/-- The innermost tested negation is in a test whose text has another truth value than its tree. -/
theorem Logical.exists_turned {e : Expr} (h : e.Logical) (ht : e.testsNegation = true) :
    ∃ s ∈ e.subexpressions, ∀ env,
      (s.rendered qualifier).lowered.truth env ≠ s.truth qualifier env := by
  induction h with
  | boolean note type b => cases ht
  | null note type => cases ht
  | path hp =>
    rw [testsNegation_of_isPath hp] at ht
    cases ht
  | not note _ ih =>
    obtain ⟨s, hs, hne⟩ := ih ht
    exact ⟨s, List.mem_cons_of_mem _ hs, hne⟩
  | @connective note op left right hop _ _ ihl ihr =>
    have hequality : op.isEquality = false := by
      cases op with
      | and => rfl
      | or => rfl
      | _ => cases hop
    rw [testsNegation, hequality, Bool.false_and, Bool.false_or, Bool.or_eq_true] at ht
    exact exists_subexpression (ht.imp ihl ihr)
  | @equality note op left right hop hl hr ihl ihr =>
    by_cases hbelow : left.testsNegation = true ∨ right.testsNegation = true
    · exact exists_subexpression (hbelow.imp ihl ihr)
    · -- No operand tests a negation, so the equality itself is the innermost test of one.
      simp only [not_or, Bool.not_eq_true] at hbelow
      rw [testsNegation, hop, hbelow.1, hbelow.2, Bool.true_and, Bool.or_false, Bool.or_false,
        Bool.or_eq_true, Bool.and_eq_true, Bool.and_eq_true] at ht
      refine ⟨_, mem_subexpressions_self _, fun env => ?_⟩
      rw [lowered_equality hop, truth_equality hop]
      split
      · next hnull =>
        have hleft : left.isNegation = true := by simpa [hnull, isNegation_of_isNull hnull] using ht
        exact truth_nullTest_negation hl hleft hbelow.1
      · next hnull =>
        have hright : left.isNull = true ∧ right.isNegation = true := by simpa [hnull] using ht
        rw [if_pos hright.1, if_pos hright.1]
        exact truth_nullTest_negation hr hright.2 hbelow.2

/-! ### Expressions in filters -/

private theorem of_mem_subexpressions {P : Expr → Prop}
    (hunary : ∀ {note op operand}, P (.unary note op operand) → P operand)
    (hbinary : ∀ {note op left right}, P (.binary note op left right) → P left ∧ P right)
    {e s : Expr} (hs : s ∈ e.subexpressions) (h : P e) : P s := by
  fun_induction subexpressions e with
  | case1 note op operand ih =>
    rcases List.mem_cons.mp hs with rfl | hs
    · exact h
    · exact ih hs (hunary h)
  | case2 note op left right ihl ihr =>
    rcases List.mem_cons.mp hs with rfl | hs
    · exact h
    · rcases List.mem_append.mp hs with hs | hs
      · exact ihl hs (hbinary h).1
      · exact ihr hs (hbinary h).2
  | case3 e =>
    obtain rfl := List.mem_singleton.mp hs
    exact h

theorem isRenderable_of_mem {e s : Expr} (hs : s ∈ e.subexpressions) (h : e.isRenderable = true) :
    s.isRenderable = true := by
  refine @of_mem_subexpressions (fun e => e.isRenderable = true) ?_ ?_ e s hs h
  · intro note op operand h
    exact (Bool.and_eq_true_iff.mp h).2
  · intro note op left right h
    simp only [isRenderable, Bool.and_eq_true] at h
    exact ⟨h.1.2, h.2⟩

theorem isLogical_of_mem {e s : Expr} (hs : s ∈ e.subexpressions) (h : e.isLogical = true) :
    s.isLogical = true := by
  refine @of_mem_subexpressions (fun e => e.isLogical = true) ?_ ?_ e s hs h
  · intro note op operand h
    cases op with
    | not => exact h
    | negate => cases h
  · intro note op left right h
    simp only [isLogical, Bool.and_eq_true] at h
    exact ⟨h.1.2, h.2⟩

theorem testsNegation_of_mem {e s : Expr} (hs : s ∈ e.subexpressions)
    (h : e.testsNegation = false) : s.testsNegation = false := by
  refine @of_mem_subexpressions (fun e => e.testsNegation = false) ?_ ?_ e s hs h
  · exact id
  · intro note op left right h
    simp only [testsNegation, Bool.or_eq_false_iff] at h
    exact ⟨h.1.2, h.2⟩

theorem isStructural_of_isLogical {e : Expr} (h : e.isRenderable = true) (hl : e.isLogical = true) :
    e.type.isStructural = false := by
  cases hs : e.type.isStructural with
  | false => rfl
  | true =>
    have hp := isPath_of_isStructural h hs
    have htype : e.type = .simple .boolean := by
      cases e with
      | property note ref => exact of_decide_eq_true (Bool.and_eq_true_iff.mp hl).2
      | member note base target => exact of_decide_eq_true (Bool.and_eq_true_iff.mp hl).2
      | _ => cases hp
    rw [htype] at hs
    cases hs

/-- Whatever values the paths have, the expression's text is read to the truth value of the tree. -/
def KeepsTruth (qualifier : String) (e : Expr) : Prop :=
  ∃ text p, translate qualifier e = .ok text ∧ Jpql.read Jpql.negationStrength text = some p ∧
    ∀ env, p.truth env = e.truth qualifier env

theorem keepsTruth_iff (hq : Text.isPlainName qualifier = true) {e : Expr}
    (h : e.isRenderable = true) (hl : e.isLogical = true) :
    e.KeepsTruth qualifier ↔
      ∀ env, (e.rendered qualifier).lowered.truth env = e.truth qualifier env := by
  obtain ⟨text, ht, hread⟩ :=
    read_translate_lowered hq h (isStructural_of_isLogical h hl) (logical_of_isLogical hl)
  constructor
  · rintro ⟨text', p, ht', hread', htruth⟩
    obtain rfl : text = text' := by simpa [ht] using ht'
    obtain rfl : _ = p := by simpa [hread] using hread'
    exact htruth
  · exact fun htruth => ⟨text, _, ht, hread, htruth⟩

end Expr

/-- For every model, alias and logical filter that was read: the text is read to a phrase that has
the tree's truth value under every assignment, unless the filter tests a negation for null. All
expressions in the filter keep their truth values exactly if none of them tests a negation for
null. -/
theorem translate_truth_of_not_testsNegation (model : Model) (entityType : EntityType)
    (input qualifier : String) (e : Expr) (hm : model.hasPlainNames = true)
    (hq : Text.isPlainName qualifier = true) (h : parseFilter model entityType input = .ok e)
    (hl : e.isLogical = true) :
    ∃ text p, translate qualifier e = .ok text ∧ Jpql.read Jpql.negationStrength text = some p ∧
      (e.testsNegation = false → ∀ env, p.truth env = e.truth qualifier env) ∧
      ((∀ s ∈ e.subexpressions, s.KeepsTruth qualifier) ↔ e.testsNegation = false) := by
  have hlogical := Expr.logical_of_isLogical hl
  have hr := isRenderable_of_parseExpression hm (parseFilter_eq_ok_iff.mp h).1 hlogical.hasCall
  have hkeeps (s : Expr) (hs : s ∈ e.subexpressions) : s.KeepsTruth qualifier ↔
      ∀ env, (s.rendered qualifier).lowered.truth env = s.truth qualifier env :=
    Expr.keepsTruth_iff hq (Expr.isRenderable_of_mem hs hr) (Expr.isLogical_of_mem hs hl)
  obtain ⟨text, ht, hread⟩ :=
    read_translate_lowered hq hr (Expr.isStructural_of_isLogical hr hl) hlogical
  refine ⟨text, _, ht, hread, fun hn env => hlogical.truth_lowered hn, ?_, ?_⟩
  · intro hall
    cases hn : e.testsNegation with
    | false => rfl
    | true =>
      obtain ⟨s, hs, hne⟩ := hlogical.exists_turned hn
      exact absurd ((hkeeps s hs).mp (hall s hs) fun _ => none) (hne _)
  · intro hn s hs
    have hslogical := Expr.logical_of_isLogical (Expr.isLogical_of_mem hs hl)
    exact (hkeeps s hs).mpr fun env => hslogical.truth_lowered (Expr.testsNegation_of_mem hs hn)

/-- A filter with negations before comparisons and in connectives, and null tests of other
operands. -/
theorem translate_truth_sample : ∃ e text p,
    parseFilter sampleModel sampleType
      "(not final eq true or final ne null) and not (final and true eq final)" = .ok e ∧
    translate "E1" e = .ok text ∧ Jpql.read Jpql.negationStrength text = some p ∧
    (∀ env, p.truth env = e.truth "E1" env) ∧ ∀ s ∈ e.subexpressions, s.KeepsTruth "E1" := by
  obtain ⟨e, he, htest⟩ := @exists_ok_of_any _ _
    (parseFilter sampleModel sampleType
      "(not final eq true or final ne null) and not (final and true eq final)")
    (fun e => e.isLogical && !e.testsNegation) (by decide +kernel)
  simp only [Bool.and_eq_true, Bool.not_eq_true'] at htest
  obtain ⟨text, p, ht, hread, htruth, hall⟩ := translate_truth_of_not_testsNegation sampleModel
    sampleType _ "E1" e (by decide +kernel) (by decide +kernel) he htest.1
  exact ⟨e, text, p, he, ht, hread, htruth htest.2, hall.mpr htest.2⟩

/-- The test whether a negation is null is read as the negation of the test. -/
theorem translate_changes_truth : ∃ e text p,
    parseFilter sampleModel sampleType "not final eq null" = .ok e ∧ e.isLogical = true ∧
    translate "E1" e = .ok text ∧ text = "NOT(E1.final) IS NULL" ∧
    Jpql.read Jpql.negationStrength text = some p ∧
    e.truth "E1" (fun _ => some true) = some false ∧ p.truth (fun _ => some true) = some true := by
  obtain ⟨e, he, htest⟩ := @exists_ok_of_any _ _
    (parseFilter sampleModel sampleType "not final eq null")
    (fun e => e.isLogical && e.truth "E1" (fun _ => some true) == some false &&
      (translate "E1" e).toOption == some "NOT(E1.final) IS NULL") (by decide +kernel)
  simp only [Bool.and_eq_true, beq_iff_eq] at htest
  obtain ⟨text, ht, htext⟩ :=
    @exists_ok_of_any _ _ (translate "E1" e) (· == "NOT(E1.final) IS NULL")
    (by rw [htest.2]; rfl)
  obtain rfl : text = "NOT(E1.final) IS NULL" := by simpa using htext
  have hread : (Jpql.read Jpql.negationStrength "NOT(E1.final) IS NULL").bind
      (Phrase.truth fun _ => some true) = some true := by
    decide +kernel
  obtain ⟨p, hp, htruth⟩ := Option.bind_eq_some_iff.mp hread
  exact ⟨e, _, p, he, htest.1.1, ht, rfl, hp, htest.1.2, htruth⟩

end EntityQuery
