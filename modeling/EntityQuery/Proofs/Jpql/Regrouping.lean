import EntityQuery.Proofs.Jpql.Phrase

/-!
# Regrouping chains

Words do not tell whether a chain of operators of one strength grouped to the right when it was
written: the reader groups it to the left. Grafting puts an operand before a phrase the way the
reader finds it, at the left end of the phrase's own chain.
-/

namespace EntityQuery

theorem BinaryOperator.strength_le (op : BinaryOperator) : op.strength ≤ atomStrength := by
  cases op <;> decide

/-- A sign binds tighter than every operator between two operands. -/
theorem BinaryOperator.strength_lt_minus (op : BinaryOperator) (h : op ≠ .mod) :
    op.strength < Jpql.minusStrength := by
  cases op with
  | mod => exact absurd rfl h
  | _ => decide

theorem BinaryOperator.strength_lt (op : BinaryOperator) (h : op ≠ .mod) :
    op.strength < atomStrength :=
  Nat.lt_trans (op.strength_lt_minus h) (by decide)

theorem BinaryOperator.strength_pos (op : BinaryOperator) : 1 ≤ op.strength := by
  cases op <;> decide

theorem BinaryOperator.strength_of_isEquality (op : BinaryOperator) (h : op.isEquality = true) :
    op.strength = comparisonStrength := by
  cases op with
  | eq => rfl
  | ne => rfl
  | _ => cases h

namespace Jpql.Phrase

/-- An operator with its left operand put before a phrase, at the left end of the chain of operators
of the same strength that the phrase is. -/
def graft (op : BinaryOperator) (left : Phrase) : Phrase → Phrase
  | .binary inner l r =>
    if inner.strength = op.strength then .binary inner (graft op left l) r
    else .binary op left (.binary inner l r)
  | right => .binary op left right

/-- The phrase with all its chains grouped to the left. -/
def regrouped : Phrase → Phrase
  | .path text => .path text
  | .literal text => .literal text
  | .null => .null
  | .not operand => .not operand.regrouped
  | .negate operand => .negate operand.regrouped
  | .binary op left right => graft op left.regrouped right.regrouped
  | .modulo left right => .modulo left.regrouped right.regrouped
  | .isNull operand => .isNull operand.regrouped
  | .isNotNull operand => .isNotNull operand.regrouped
  | .group inner => .group inner.regrouped

theorem graft_of_ne {op : BinaryOperator} {r : Phrase} (l : Phrase) (h : r.strength ≠ op.strength) :
    graft op l r = .binary op l r := by
  cases r with
  | binary inner a b => exact if_neg h
  | _ => rfl

/-- Grafting keeps the words in their order. -/
theorem words_graft (op : BinaryOperator) (l r : Phrase) :
    (graft op l r).words = l.words ++ .operator op :: r.words := by
  induction r with
  | binary inner a b iha _ =>
    rw [graft]
    by_cases h : inner.strength = op.strength
    · rw [if_pos h, words, iha, words, List.append_assoc, List.cons_append]
    · rw [if_neg h, words]
  | _ => rfl

theorem words_regrouped (p : Phrase) : p.regrouped.words = p.words := by
  induction p with
  | path text => rfl
  | literal text => rfl
  | null => rfl
  | not x ih => rw [regrouped, words, ih, words]
  | negate x ih => rw [regrouped, words, ih, words]
  | binary op l r ihl ihr => rw [regrouped, words_graft, ihl, ihr, words]
  | modulo l r ihl ihr => rw [regrouped, words, ihl, ihr, words]
  | isNull x ih => rw [regrouped, words, ih, words]
  | isNotNull x ih => rw [regrouped, words, ih, words]
  | group x ih => rw [regrouped, words, ih, words]

@[simp]
theorem strength_graft (op : BinaryOperator) (l r : Phrase) :
    (graft op l r).strength = op.strength := by
  cases r with
  | binary inner a b =>
    rw [graft]
    by_cases h : inner.strength = op.strength
    · rw [if_pos h, strength, h]
    · rw [if_neg h, strength]
  | _ => rfl

@[simp]
theorem strength_regrouped (p : Phrase) : p.regrouped.strength = p.strength := by
  cases p with
  | binary op l r => exact strength_graft op l.regrouped r.regrouped
  | _ => rfl

/-! ### Stability -/

variable {negation least after : Nat} {p : Phrase}

theorem Stable.least_le (h : p.Stable negation least after) (hle : least ≤ atomStrength) :
    least ≤ p.strength := by
  cases p with
  | binary op l r => exact h.1
  | isNull x => exact h.1
  | isNotNull x => exact h.1
  | _ => exact hle

theorem Stable.after_le (h : p.Stable negation least after) (hle : after ≤ atomStrength) :
    after ≤ p.strength := by
  cases p with
  | binary op l r => exact h.2.1
  | isNull x => exact h.2.1
  | isNotNull x => exact h.2.1
  | _ => exact hle

/-- The reader may be after tighter operators, as long as the root is one of them. -/
theorem Stable.raise (h : p.Stable negation least after) {level : Nat} (hle : level ≤ p.strength) :
    p.Stable negation level after := by
  induction p generalizing level after with
  | binary op l r ihl _ =>
    obtain ⟨_, hafter, htest, hl, hr⟩ := h
    have hop : op.strength ≤ l.strength := hl.after_le op.strength_le
    exact ⟨hle, hafter, htest, ihl hl (Nat.le_trans hle hop), hr⟩
  | isNull x ih =>
    obtain ⟨_, hafter, htest, hx⟩ := h
    have hx' : comparisonStrength ≤ x.strength := hx.after_le (by decide)
    exact ⟨hle, hafter, htest, ih hx (Nat.le_trans hle hx')⟩
  | isNotNull x ih =>
    obtain ⟨_, hafter, htest, hx⟩ := h
    have hx' : comparisonStrength ≤ x.strength := hx.after_le (by decide)
    exact ⟨hle, hafter, htest, ih hx (Nat.le_trans hle hx')⟩
  | _ => exact h

/-- Grafting onto a chain of the operator's strength gives what the reader finds. -/
theorem stable_graft {op : BinaryOperator} {l r : Phrase} (hop : op.strength ≠ comparisonStrength)
    (hleast : least ≤ op.strength) (hafter : after ≤ op.strength)
    (hl : l.Stable negation least op.strength) (hr : r.Stable negation op.strength after) :
    (graft op l r).Stable negation least after := by
  have binary {r : Phrase} {after : Nat} (hne : r.strength ≠ op.strength)
      (hafter : after ≤ op.strength) (hr : r.Stable negation op.strength after) :
      (Phrase.binary op l r).Stable negation least after := by
    have hle : op.strength ≤ r.strength := hr.least_le op.strength_le
    exact ⟨hleast, hafter, fun h => absurd h hop, hl, hr.raise (by omega)⟩
  -- The induction goes down the left operands of the chain; behind each of them the chain goes on.
  induction r generalizing after with
  | binary inner a b iha _ =>
    rw [graft]
    by_cases h : inner.strength = op.strength
    · rw [if_pos h]
      obtain ⟨_, hafter', _, ha, hb⟩ := hr
      refine ⟨by omega, hafter', fun ht => absurd (h.symm.trans ht) hop, ?_, hb⟩
      rw [h] at ha ⊢
      exact iha (Nat.le_refl _) ha
    · rw [if_neg h]
      exact binary h hafter hr
  | isNull x _ => exact binary (fun h => hop h.symm) hafter hr
  | isNotNull x _ => exact binary (fun h => hop h.symm) hafter hr
  | _ => exact ⟨hleast, hafter, fun h => absurd h hop, hl, hr⟩

end Jpql.Phrase

end EntityQuery
