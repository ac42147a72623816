import EntityQuery.Proofs.Jpql.Renderable

/-!
# Truth values of texts and filters

Conditions in three-valued logic: a truth value may be unknown, comparisons with an unknown value
are unknown, and null tests are never unknown. JPQL reads `NOT` more loosely than comparisons and
null tests, so a negation on the left of one of them moves outside. For a comparison this changes
nothing; for a null test it always does.
-/

namespace EntityQuery

open Jpql (Phrase)

/-! ### Truth values -/

/-- The truth value of an operator; `none` is unknown. -/
def BinaryOperator.truth : BinaryOperator → Option Bool → Option Bool → Option Bool
  | .and, some false, _ => some false
  | .and, _, some false => some false
  | .and, some true, some true => some true
  | .or, some true, _ => some true
  | .or, _, some true => some true
  | .or, some false, some false => some false
  | .eq, some a, some b => some (a == b)
  | .ne, some a, some b => some (a != b)
  | _, _, _ => none

/-- The truth value of a null test on an operand of the given value. -/
def BinaryOperator.nullTruth (op : BinaryOperator) (x : Option Bool) : Option Bool :=
  some (if op = .eq then x.isNone else x.isSome)

/-- The truth value of a phrase, where paths have the values that `env` gives them. -/
def Jpql.Phrase.truth (env : String → Option Bool) : Phrase → Option Bool
  | .path text => env text
  | .literal text =>
    if text = "true" then some true else if text = "false" then some false else none
  | .not operand => (operand.truth env).map fun b => !b
  | .binary op left right => op.truth (left.truth env) (right.truth env)
  | .isNull operand => BinaryOperator.eq.nullTruth (operand.truth env)
  | .isNotNull operand => BinaryOperator.ne.nullTruth (operand.truth env)
  | .group inner => inner.truth env
  | _ => none

namespace Expr

/-- Truth values, `null` and Boolean paths under negations, conjunctions, disjunctions and
equalities. -/
def isLogical : Expr → Bool
  | .literal _ ⟨_, .boolean _⟩ | .literal _ ⟨_, .null⟩ => true
  | .unary _ .not operand => operand.isLogical
  | .binary _ op left right =>
    (decide (op.category = .logical) || op.isEquality) && left.isLogical && right.isLogical
  | e => e.isPath && decide (e.type = .simple .boolean)

/-- The truth value of a tree, node by node. An equality with the literal `null` is a null test. -/
def truth (qualifier : String) (env : String → Option Bool) : Expr → Option Bool
  | .literal _ ⟨_, .boolean b⟩ => some b
  | .unary _ .not operand => (operand.truth qualifier env).map fun b => !b
  | .binary _ op left right =>
    if op.isEquality && right.isNull then op.nullTruth (left.truth qualifier env)
    else if op.isEquality && left.isNull then op.nullTruth (right.truth qualifier env)
    else op.truth (left.truth qualifier env) (right.truth qualifier env)
  | e => if e.isPath then env (e.pathText qualifier) else none

/-- Whether the root is a negation. -/
def isNegation : Expr → Bool
  | .unary _ .not _ => true
  | _ => false

/-- Whether the operand of some null test is a negation. -/
def testsNegation : Expr → Bool
  | .unary _ _ operand => operand.testsNegation
  | .binary _ op left right =>
    (op.isEquality && (right.isNull && left.isNegation || left.isNull && right.isNegation)) ||
      left.testsNegation || right.testsNegation
  | _ => false

/-- The expression and all expressions in it, as far as operators go. -/
def subexpressions : Expr → List Expr
  | .unary note op operand => .unary note op operand :: operand.subexpressions
  | .binary note op left right =>
    .binary note op left right :: (left.subexpressions ++ right.subexpressions)
  | e => [e]

end Expr

/-! ### Negations in front -/

namespace Jpql

/-- How tightly `NOT` binds in JPQL: more tightly than `AND`, less than comparisons. -/
def negationStrength : Nat := 3

namespace Phrase

/-- Applies `f` to what a negation in front stands before. -/
def under (f : Phrase → Phrase) : Phrase → Phrase
  | .not x => .not (f x)
  | x => f x

/-- The phrase as it is read where `NOT` binds less tightly than comparisons: a negation on the left
of one moves outside, and chains group to the left. -/
def lowered : Phrase → Phrase
  | .path text => .path text
  | .literal text => .literal text
  | .null => .null
  | .not operand => .not operand.lowered
  | .negate operand => .negate operand.lowered
  | .binary op left right =>
    if op.strength = comparisonStrength then under (.binary op · right.lowered) left.lowered
    else graft op left.lowered right.lowered
  | .modulo left right => .modulo left.lowered right.lowered
  | .isNull operand => under .isNull operand.lowered
  | .isNotNull operand => under .isNotNull operand.lowered
  | .group inner => .group inner.lowered

private theorem words_under {f : Phrase → Phrase} {ws : List Word}
    (hf : ∀ x, (f x).words = x.words ++ ws) (p : Phrase) : (under f p).words = p.words ++ ws := by
  cases p with
  | not x => rw [under, words, hf, words, List.cons_append]
  | _ => exact hf _

theorem words_lowered (p : Phrase) : p.lowered.words = p.words := by
  induction p with
  | path text => rfl
  | literal text => rfl
  | null => rfl
  | not x ih => rw [lowered, words, ih, words]
  | negate x ih => rw [lowered, words, ih, words]
  | binary op l r ihl ihr =>
    rw [lowered]
    split
    · rw [words_under (fun x => by rw [words]), ihl, ihr, words]
    · rw [words_graft, ihl, ihr, words]
  | modulo l r ihl ihr => rw [lowered, words, ihl, ihr, words]
  | isNull x ih => rw [lowered, words_under (fun x => by rw [words]), ih, words]
  | isNotNull x ih => rw [lowered, words_under (fun x => by rw [words]), ih, words]
  | group x ih => rw [lowered, words, ih, words]

/-- Operands of comparisons as they are read: leaves, groups, and negations of groups. -/
private inductive Operand : Phrase → Prop
  | path (text : String) : Operand (.path text)
  | literal (text : String) : Operand (.literal text)
  | null : Operand .null
  | group {x : Phrase} (h : x.Stable negationStrength 1 0) : Operand (.group x)
  | not {x : Phrase} (h : x.Stable negationStrength 1 0) : Operand (.not (.group x))

/-- An operand of a comparison or a null test is read whatever the level. -/
private theorem Operand.stable {p : Phrase} (h : Operand p) {least after : Nat}
    (hafter : after < negationStrength) : p.Stable negationStrength least after := by
  cases h with
  | path text => trivial
  | literal text => trivial
  | null => trivial
  | group hx => exact hx
  | not hx => exact ⟨hafter, hx⟩

/-- What takes an operand on its left takes it behind the negation in front. -/
private theorem Operand.stable_under {p : Phrase} (h : Operand p) {f : Phrase → Phrase}
    {least after : Nat} (hleast : least ≤ comparisonStrength) (hafter : after < negationStrength)
    (hf : ∀ x : Phrase, ∀ level ≤ comparisonStrength, x.strength ≠ comparisonStrength →
      x.Stable negationStrength level comparisonStrength →
      (f x).Stable negationStrength level after) :
    (under f p).Stable negationStrength least after := by
  have hatom : atomStrength ≠ comparisonStrength := by decide
  cases h with
  | path text => exact hf _ least hleast hatom trivial
  | literal text => exact hf _ least hleast hatom trivial
  | null => exact hf _ least hleast hatom trivial
  | group hx => exact hf _ least hleast hatom hx
  | not hx => exact ⟨hafter, hf _ negationStrength (by decide) hatom hx⟩

end Phrase

end Jpql

namespace Expr

open Jpql (negationStrength)

variable {qualifier : String}

/-- The shapes of logical expressions. -/
inductive Logical : Expr → Prop
  | boolean (note : Annotation) (type : SimpleType) (b : Bool) :
    Logical (.literal note ⟨type, .boolean b⟩)
  | null (note : Annotation) (type : SimpleType) : Logical (.literal note ⟨type, .null⟩)
  | path {e : Expr} (h : e.isPath = true) : Logical e
  | not (note : Annotation) {operand : Expr} (h : Logical operand) :
    Logical (.unary note .not operand)
  | connective (note : Annotation) {op : BinaryOperator} {left right : Expr}
    (hop : op.category = .logical) (hl : Logical left) (hr : Logical right) :
    Logical (.binary note op left right)
  | equality (note : Annotation) {op : BinaryOperator} {left right : Expr}
    (hop : op.isEquality = true) (hl : Logical left) (hr : Logical right) :
    Logical (.binary note op left right)

theorem logical_of_isLogical {e : Expr} (h : e.isLogical = true) : Logical e := by
  fun_induction isLogical e with
  | case1 note type b => exact .boolean note type b
  | case2 note type => exact .null note type
  | case3 note operand ih => exact .not note (ih h)
  | case4 note op left right ihl ihr =>
    simp only [Bool.and_eq_true, Bool.or_eq_true, decide_eq_true_eq] at h
    obtain ⟨⟨hop | hop, hl⟩, hr⟩ := h
    · exact .connective note hop (ihl hl) (ihr hr)
    · exact .equality note hop (ihl hl) (ihr hr)
  | case5 e =>
    rw [Bool.and_eq_true] at h
    exact .path h.1

theorem Logical.hasCall {e : Expr} (h : e.Logical) : e.hasCall = false := by
  induction h with
  | boolean note type b => rfl
  | null note type => rfl
  | path hp => exact hasCall_of_isPath hp
  | not note _ ih => exact ih
  | connective note _ _ _ ihl ihr => rw [Expr.hasCall, ihl, ihr]; rfl
  | equality note _ _ _ ihl ihr => rw [Expr.hasCall, ihl, ihr]; rfl

/-! ### Loose negations -/

@[simp]
theorem lowered_groupIf (needed : Bool) (p : Phrase) :
    (p.groupIf needed).lowered = p.lowered.groupIf needed := by
  cases needed <;> rfl

theorem lowered_nullTest (op : BinaryOperator) (p : Phrase) :
    (p.nullTest op).lowered = Phrase.under (Phrase.nullTest op) p.lowered := by
  by_cases hop : op = .eq
  · have htest : Phrase.nullTest op = Phrase.isNull := funext fun _ => if_pos hop
    rw [htest]
    rfl
  · have htest : Phrase.nullTest op = Phrase.isNotNull := funext fun _ => if_neg hop
    rw [htest]
    rfl

theorem rendered_boolean (qualifier : String) (note : Annotation) (type : SimpleType) (b : Bool) :
    rendered qualifier (.literal note ⟨type, .boolean b⟩) =
      .literal (if b then "true" else "false") := by
  have htext : Literal.text ⟨type, .boolean b⟩ = if b then "true" else "false" := rfl
  have hnull : (⟨type, .boolean b⟩ : Literal).value ≠ .null := fun h => nomatch h
  rw [rendered, Phrase.ofLiteral_of_ne_null hnull, htext]
  cases b with
  | false => exact Phrase.ofText_of_head (by decide)
  | true => exact Phrase.ofText_of_head (by decide)

/-- The operand of an equality, as it stands in the text. -/
def tested (qualifier : String) (e : Expr) : Phrase :=
  (e.rendered qualifier).groupIf (decide (e.strength ≤ comparisonStrength))

theorem tested_of_le {e : Expr} (h : e.strength ≤ comparisonStrength) :
    e.tested qualifier = .group (e.rendered qualifier) := by
  rw [tested, decide_eq_true h]
  rfl

theorem tested_of_isPath {e : Expr} (h : e.isPath = true) :
    e.tested qualifier = .path (e.pathText qualifier) := by
  have hlt : ¬ e.strength ≤ comparisonStrength := by
    rw [strength_of_isPath h]
    decide
  rw [tested, decide_eq_false hlt, rendered_of_isPath h]
  rfl

theorem tested_boolean (note : Annotation) (type : SimpleType) (b : Bool) :
    tested qualifier (.literal note ⟨type, .boolean b⟩) =
      .literal (if b then "true" else "false") := by
  rw [tested, rendered_boolean]
  rfl

private theorem needsParen_of_test {op : BinaryOperator} (hop : op.strength = comparisonStrength)
    (isRight : Bool) (e : Expr) :
    e.needsParen op isRight = decide (e.strength ≤ comparisonStrength) := by
  unfold needsParen
  rw [hop]
  split
  · next hlt => exact (decide_eq_true (Nat.le_of_lt hlt)).symm
  · split
    · next hlt => exact (decide_eq_false (Nat.not_le_of_lt hlt)).symm
    · next hge => exact (decide_eq_true (Nat.le_of_not_lt hge)).symm

theorem strength_of_logical {op : BinaryOperator} (hop : op.category = .logical) :
    op.strength < negationStrength := by
  cases op with
  | and => decide
  | or => decide
  | _ => cases hop

/-- Chains of connectives are regrouped. -/
theorem lowered_connective {op : BinaryOperator} (hop : op.category = .logical) (note : Annotation)
    (left right : Expr) :
    (rendered qualifier (.binary note op left right)).lowered =
      .graft op ((left.rendered qualifier).lowered.groupIf (left.needsParen op false))
        ((right.rendered qualifier).lowered.groupIf (right.needsParen op true)) := by
  have htest : op.strength ≠ comparisonStrength :=
    Nat.ne_of_lt (Nat.lt_trans (strength_of_logical hop) (by decide))
  have hform : rendered qualifier (.binary note op left right) =
      .binary op ((left.rendered qualifier).groupIf (left.needsParen op false))
        ((right.rendered qualifier).groupIf (right.needsParen op true)) := by
    cases op with
    | and => rfl
    | or => rfl
    | _ => cases hop
  rw [hform, Phrase.lowered, if_neg htest, lowered_groupIf, lowered_groupIf]

/-- Equalities are tests behind the negation of their left operand, null tests where one of the
operands is `null`. -/
theorem lowered_equality {op : BinaryOperator} (hop : op.isEquality = true) (note : Annotation)
    (left right : Expr) :
    (rendered qualifier (.binary note op left right)).lowered =
      if right.isNull then .under (Phrase.nullTest op) (left.tested qualifier).lowered
      else if left.isNull then .under (Phrase.nullTest op) (right.tested qualifier).lowered
      else .under (.binary op · (right.tested qualifier).lowered)
      (left.tested qualifier).lowered := by
  have hmod : op ≠ .mod := by
    rintro rfl
    cases hop
  have hstrength := op.strength_of_isEquality hop
  rw [rendered, hop, Bool.true_and, Bool.true_and, if_neg hmod, needsParen_of_test hstrength,
    needsParen_of_test hstrength]
  split
  · exact lowered_nullTest op _
  · split
    · exact lowered_nullTest op _
    · rw [Phrase.lowered, if_pos hstrength]
      rfl

theorem strength_le_of_isEquality {op : BinaryOperator} (hop : op.isEquality = true)
    (note : Annotation) (left right : Expr) :
    (Expr.binary note op left right).strength ≤ comparisonStrength :=
  Nat.le_of_eq (op.strength_of_isEquality hop)

theorem strength_le_of_logical {op : BinaryOperator} (hop : op.category = .logical)
    (note : Annotation) (left right : Expr) :
    (Expr.binary note op left right).strength ≤ comparisonStrength :=
  Nat.le_of_lt (Nat.lt_trans (strength_of_logical hop) (by decide))

/-- An operand of an equality is a group, a leaf or a negation. -/
private theorem Logical.operand {e : Expr} (h : e.Logical)
    (hfound : e.Found negationStrength negationStrength (e.rendered qualifier).lowered) :
    (e.tested qualifier).lowered.Operand := by
  have hgroup := hfound.group (by decide)
  cases h with
  | boolean note type b =>
    rw [tested_boolean]
    exact .literal _
  | null note type => exact .null
  | path hp =>
    rw [tested_of_isPath hp]
    exact .path _
  | not note _ => exact .not hgroup.2
  | connective note hop _ _ =>
    rw [tested_of_le (strength_le_of_logical hop ..)]
    exact .group hgroup
  | equality note hop _ _ =>
    rw [tested_of_le (strength_le_of_isEquality hop ..)]
    exact .group hgroup

private theorem stable_nullTest (op : BinaryOperator) {p : Phrase} (h : p.Operand)
    {least after : Nat} (hleast : least ≤ comparisonStrength) (hafter : after < negationStrength) :
    (Phrase.under (Phrase.nullTest op) p).Stable negationStrength least after := by
  refine h.stable_under hleast hafter fun x level hlevel htest hx => ?_
  have hle : after ≤ comparisonStrength := Nat.le_of_lt (Nat.lt_trans hafter (by decide))
  unfold Phrase.nullTest
  split
  · exact ⟨hlevel, hle, htest, hx⟩
  · exact ⟨hlevel, hle, htest, hx⟩

private theorem stable_equality {op : BinaryOperator} (hop : op.strength = comparisonStrength)
    {l r : Phrase} (hl : l.Operand) (hr : r.Operand) {least after : Nat}
    (hleast : least ≤ comparisonStrength) (hafter : after < negationStrength) :
    (Phrase.under (.binary op · r) l).Stable negationStrength least after := by
  refine hl.stable_under hleast hafter fun x level hlevel htest hx => ?_
  have hle : after ≤ comparisonStrength := Nat.le_of_lt (Nat.lt_trans hafter (by decide))
  rw [← hop] at hlevel hle hx
  exact ⟨hlevel, hle, fun _ => htest, hx, hr.stable hafter⟩

/-- A reader for which `NOT` is looser than comparisons finds the negations in front of them. -/
theorem Logical.found {e : Expr} (h : e.Logical) (qualifier : String) :
    e.Found negationStrength negationStrength (e.rendered qualifier).lowered := by
  induction h with
  | boolean note type b =>
    intro least after _ _ _
    rw [rendered_boolean]
    trivial
  | null note type => exact fun _ _ _ _ _ => trivial
  | path hp =>
    intro least after _ _ _
    rw [rendered_of_isPath hp]
    trivial
  | not note _ ih => exact fun _ _ _ _ hafter => ⟨hafter, ih.group (by decide)⟩
  | @connective note op left right hop _ _ ihl ihr =>
    intro least after hleast hafter _
    have hlt := strength_of_logical hop
    have htest : op.strength ≠ comparisonStrength := Nat.ne_of_lt (Nat.lt_trans hlt (by decide))
    rw [lowered_connective hop]
    exact ihl.graft ihr hlt htest hleast hafter
  | @equality note op left right hop hl hr ihl ihr =>
    intro least after hleast _ hafter
    have hstrength := op.strength_of_isEquality hop
    rw [strength, hstrength] at hleast
    rw [lowered_equality hop]
    split
    · exact stable_nullTest op (hl.operand ihl) hleast hafter
    · split
      · exact stable_nullTest op (hr.operand ihr) hleast hafter
      · exact stable_equality hstrength (hl.operand ihl) (hr.operand ihr) hleast hafter

end Expr

/-- JPQL reads the text of a logical expression with the negations in front of comparisons and null
tests. -/
theorem read_translate_lowered {qualifier : String} (hq : Text.isPlainName qualifier = true)
    {e : Expr} (h : e.isRenderable = true) (hs : e.type.isStructural = false) (hl : e.Logical) :
    ∃ text, translate qualifier e = .ok text ∧
      Jpql.read Jpql.negationStrength text = some (e.rendered qualifier).lowered := by
  obtain ⟨j, hj, hspells⟩ := Jpql.ofExpr_spells hq h
  refine ⟨j.text, ?_, ?_⟩
  · rw [translate, hs, hj]
    rfl
  · rw [← Phrase.words_lowered] at hspells
    exact Jpql.read_of_spells ((hl.found qualifier).group (by decide)) hspells

end EntityQuery
