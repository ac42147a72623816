import EntityQuery.Jpql.OfExpr
import EntityQuery.Proofs.Jpql.Words

/-!
# Reading JPQL

Phrases are what a reader of JPQL makes of words: operators with the operands it gives them, and the
groups that stand in parentheses. Operators of one strength group to the left, and a comparison
takes no other comparison as its operand. How tightly `NOT` binds is left open.

The main result says which phrases their own words are read back to.
-/

namespace EntityQuery.Jpql

/-- How tightly a minus sign binds. -/
def minusStrength : Nat := 7

/-- What a reader of JPQL makes of words. -/
inductive Phrase where
  | path (text : String)
  | literal (text : String)
  | null
  | not (operand : Phrase)
  | negate (operand : Phrase)
  | binary (op : BinaryOperator) (left right : Phrase)
  | modulo (left right : Phrase)
  | isNull (operand : Phrase)
  | isNotNull (operand : Phrase)
  | group (inner : Phrase)
  deriving DecidableEq, Repr

namespace Phrase

/-- The words of a phrase. -/
def words : Phrase → List Word
  | .path text => [.path text]
  | .literal text => [.literal text]
  | .null => [.null]
  | .not operand => .not :: operand.words
  | .negate operand => .operator .sub :: operand.words
  | .binary op left right => left.words ++ .operator op :: right.words
  | .modulo left right =>
    .mod :: .openParen :: (left.words ++ .comma :: (right.words ++ [.closeParen]))
  | .isNull operand => operand.words ++ [.is, .null]
  | .isNotNull operand => operand.words ++ [.is, .not, .null]
  | .group inner => .openParen :: (inner.words ++ [.closeParen])

/-- The phrase without its groups. -/
def ungrouped : Phrase → Phrase
  | .path text => .path text
  | .literal text => .literal text
  | .null => .null
  | .not operand => .not operand.ungrouped
  | .negate operand => .negate operand.ungrouped
  | .binary op left right => .binary op left.ungrouped right.ungrouped
  | .modulo left right => .modulo left.ungrouped right.ungrouped
  | .isNull operand => .isNull operand.ungrouped
  | .isNotNull operand => .isNotNull operand.ungrouped
  | .group inner => inner.ungrouped

/-- How tightly the root binds an operand on its left; what has none there binds like an atom. -/
def strength : Phrase → Nat
  | .binary op _ _ => op.strength
  | .isNull _ | .isNotNull _ => comparisonStrength
  | _ => atomStrength

end Phrase

/-! ### The reader -/

/-- The words left after reading at least one of them. -/
abbrev Fewer (ws : List Word) := { rest : List Word // rest.length < ws.length }

/-- The words left after reading any number of them. -/
abbrev NoMore (ws : List Word) := { rest : List Word // rest.length ≤ ws.length }

mutual

/-- Reads a phrase whose operators outside of groups bind at least as tightly as `least`. -/
def readLevel (negation least : Nat) (ws : List Word) : Option (Phrase × Fewer ws) :=
  match readOperand negation ws with
  | none => none
  | some (p, ⟨rest, h⟩) =>
    match readTail negation least p rest with
    | none => none
    | some (p, ⟨rest', h'⟩) => some (p, ⟨rest', by omega⟩)
termination_by 3 * ws.length + 2

/-- Reads an operand: a leaf, a group, the remainder function, or a sign or `NOT` with all that
binds tighter. -/
def readOperand (negation : Nat) (ws : List Word) : Option (Phrase × Fewer ws) :=
  match ws with
  | .path text :: rest => some (.path text, ⟨rest, by simp⟩)
  | .literal text :: rest => some (.literal text, ⟨rest, by simp⟩)
  | .null :: rest => some (.null, ⟨rest, by simp⟩)
  | .not :: rest =>
    match readLevel negation negation rest with
    | none => none
    | some (p, ⟨rest', h⟩) => some (.not p, ⟨rest', by simp; omega⟩)
  | .operator .sub :: rest =>
    match readLevel negation minusStrength rest with
    | none => none
    | some (p, ⟨rest', h⟩) => some (.negate p, ⟨rest', by simp; omega⟩)
  | .openParen :: rest =>
    match readLevel negation 1 rest with
    | some (p, ⟨.closeParen :: rest', h⟩) => some (.group p, ⟨rest', by simp at *; omega⟩)
    | _ => none
  | .mod :: .openParen :: rest =>
    match readLevel negation 1 rest with
    | some (l, ⟨.comma :: rest', h⟩) =>
      match readLevel negation 1 rest' with
      | some (r, ⟨.closeParen :: rest'', h'⟩) => some (.modulo l r, ⟨rest'', by simp at *; omega⟩)
      | _ => none
    | _ => none
  | _ => none
termination_by 3 * ws.length + 1
decreasing_by all_goals simp only [List.length_cons] at *; omega

/-- Reads the operators and null tests that follow the phrase `p`. -/
def readTail (negation least : Nat) (p : Phrase) (ws : List Word) : Option (Phrase × NoMore ws) :=
  match ws with
  | .operator op :: rest =>
    if op.strength < least then some (p, ⟨.operator op :: rest, by simp⟩)
    else if op.strength = comparisonStrength ∧ p.strength = comparisonStrength then none
    else
      match readLevel negation (op.strength + 1) rest with
      | none => none
      | some (r, ⟨rest', h⟩) =>
        match readTail negation least (.binary op p r) rest' with
        | none => none
        | some (p, ⟨rest'', h'⟩) => some (p, ⟨rest'', by simp at *; omega⟩)
  | .is :: .null :: rest =>
    if comparisonStrength < least then some (p, ⟨.is :: .null :: rest, by simp⟩)
    else if p.strength = comparisonStrength then none
    else
      match readTail negation least (.isNull p) rest with
      | none => none
      | some (p, ⟨rest', h⟩) => some (p, ⟨rest', by simp at *; omega⟩)
  | .is :: .not :: .null :: rest =>
    if comparisonStrength < least then some (p, ⟨.is :: .not :: .null :: rest, by simp⟩)
    else if p.strength = comparisonStrength then none
    else
      match readTail negation least (.isNotNull p) rest with
      | none => none
      | some (p, ⟨rest', h⟩) => some (p, ⟨rest', by simp at *; omega⟩)
  | ws => some (p, ⟨ws, by simp⟩)
termination_by 3 * ws.length
decreasing_by all_goals simp only [List.length_cons] at *; omega

end

/-- Reads a phrase that takes all words. -/
def readWords (negation : Nat) (ws : List Word) : Option Phrase :=
  match readLevel negation 1 ws with
  | some (p, ⟨[], _⟩) => some p
  | _ => none

/-- Reads the text of an expression, with `NOT` of strength `negation`. -/
def read (negation : Nat) (text : String) : Option Phrase :=
  (words text.toList).bind (readWords negation)

/-! ### Steps of the reader -/

/-- What was read, without the bound on the words that are left. -/
def plain {bound : List Word → Prop} (x : Option (Phrase × { rest // bound rest })) :
    Option (Phrase × List Word) :=
  x.map fun y => (y.1, y.2.val)

theorem plain_readLevel (negation least : Nat) (ws : List Word) :
    plain (readLevel negation least ws) =
      (plain (readOperand negation ws)).bind fun y => plain (readTail negation least y.1 y.2) := by
  rw [readLevel]
  cases readOperand negation ws with
  | none => rfl
  | some y =>
    obtain ⟨p, rest, hb⟩ := y
    simp only [plain, Option.map_some, Option.bind_some]
    cases readTail negation least p rest with
    | none => rfl
    | some z => rfl

private theorem exists_of_plain {bound : List Word → Prop}
    {x : Option (Phrase × { rest // bound rest })} {p : Phrase} {rest : List Word}
    (h : plain x = some (p, rest)) : ∃ hb, x = some (p, ⟨rest, hb⟩) := by
  cases x with
  | none => simp [plain] at h
  | some y =>
    obtain ⟨q, rest', hb⟩ := y
    simp only [plain, Option.map_some, Option.some.injEq, Prod.mk.injEq] at h
    obtain ⟨rfl, rfl⟩ := h
    exact ⟨hb, rfl⟩

section Operands

variable {negation : Nat} {p l r : Phrase} {ws rest vs : List Word}

theorem plain_readOperand_not (h : plain (readLevel negation negation ws) = some (p, rest)) :
    plain (readOperand negation (.not :: ws)) = some (.not p, rest) := by
  obtain ⟨hb, hx⟩ := exists_of_plain h
  rw [readOperand, hx]
  rfl

theorem plain_readOperand_minus (h : plain (readLevel negation minusStrength ws) = some (p, rest)) :
    plain (readOperand negation (.operator .sub :: ws)) = some (.negate p, rest) := by
  obtain ⟨hb, hx⟩ := exists_of_plain h
  rw [readOperand, hx]
  rfl

theorem plain_readOperand_group
    (h : plain (readLevel negation 1 ws) = some (p, .closeParen :: rest)) :
    plain (readOperand negation (.openParen :: ws)) = some (.group p, rest) := by
  obtain ⟨hb, hx⟩ := exists_of_plain h
  rw [readOperand, hx]
  rfl

theorem plain_readOperand_modulo (hl : plain (readLevel negation 1 ws) = some (l, .comma :: vs))
    (hr : plain (readLevel negation 1 vs) = some (r, .closeParen :: rest)) :
    plain (readOperand negation (.mod :: .openParen :: ws)) = some (.modulo l r, rest) := by
  obtain ⟨hbl, hxl⟩ := exists_of_plain hl
  obtain ⟨hbr, hxr⟩ := exists_of_plain hr
  rw [readOperand, hxl]
  simp only [hxr]
  rfl

end Operands

section Tail

variable {negation least : Nat} {p : Phrase}

theorem plain_readTail_operator {op : BinaryOperator} (ws : List Word)
    (hleast : least ≤ op.strength)
    (htest : op.strength = comparisonStrength → p.strength ≠ comparisonStrength) :
    plain (readTail negation least p (.operator op :: ws)) =
      (plain (readLevel negation (op.strength + 1) ws)).bind fun y =>
        plain (readTail negation least (.binary op p y.1) y.2) := by
  rw [readTail, if_neg (by omega), if_neg (fun h => htest h.1 h.2)]
  cases readLevel negation (op.strength + 1) ws with
  | none => rfl
  | some y =>
    obtain ⟨r, rest, hb⟩ := y
    simp only [plain, Option.map_some, Option.bind_some]
    cases readTail negation least (.binary op p r) rest with
    | none => rfl
    | some z => rfl

theorem plain_readTail_isNull (ws : List Word) (hleast : least ≤ comparisonStrength)
    (htest : p.strength ≠ comparisonStrength) :
    plain (readTail negation least p (.is :: .null :: ws)) =
      plain (readTail negation least (.isNull p) ws) := by
  rw [readTail, if_neg (by omega), if_neg htest]
  cases readTail negation least (.isNull p) ws with
  | none => rfl
  | some y => rfl

theorem plain_readTail_isNotNull (ws : List Word) (hleast : least ≤ comparisonStrength)
    (htest : p.strength ≠ comparisonStrength) :
    plain (readTail negation least p (.is :: .not :: .null :: ws)) =
      plain (readTail negation least (.isNotNull p) ws) := by
  rw [readTail, if_neg (by omega), if_neg htest]
  cases readTail negation least (.isNotNull p) ws with
  | none => rfl
  | some y => rfl

/-- How tightly the first word binds what stands before it. -/
def headStrength : List Word → Nat
  | .operator op :: _ => op.strength
  | .is :: _ => comparisonStrength
  | _ => 0

theorem plain_readTail_of_lt {ws : List Word} (h : headStrength ws < least) :
    plain (readTail negation least p ws) = some (p, ws) := by
  rw [readTail.eq_def]
  split
  · next op rest =>
    have hop : op.strength < least := h
    rw [if_pos hop]
    rfl
  · have his : comparisonStrength < least := h
    rw [if_pos his]
    rfl
  · have his : comparisonStrength < least := h
    rw [if_pos his]
    rfl
  · rfl

end Tail

/-! ### Phrases that are read back -/

/-- The groups are where the reader needs them: it is after operators at least as tight as `least`,
and what follows the phrase binds at most as tightly as `after`. -/
def Phrase.Stable (negation : Nat) : Nat → Nat → Phrase → Prop
  | _, _, .path _ | _, _, .literal _ | _, _, .null => True
  | _, _, .group inner => Stable negation 1 0 inner
  | _, _, .modulo left right => Stable negation 1 0 left ∧ Stable negation 1 0 right
  | _, after, .not operand => after < negation ∧ Stable negation negation after operand
  | _, after, .negate operand => after < minusStrength ∧ Stable negation minusStrength after operand
  | least, after, .binary op left right =>
    least ≤ op.strength ∧ after ≤ op.strength ∧
      (op.strength = comparisonStrength → left.strength ≠ comparisonStrength) ∧
      Stable negation least op.strength left ∧ Stable negation (op.strength + 1) after right
  | least, after, .isNull operand | least, after, .isNotNull operand =>
    least ≤ comparisonStrength ∧ after ≤ comparisonStrength ∧
      operand.strength ≠ comparisonStrength ∧ Stable negation least comparisonStrength operand

/-- An operand is read as it is if the reader stops behind it. -/
private theorem plain_readLevel_of_stop {negation level after : Nat} {x : Phrase} {rest : List Word}
    (hread : plain (readLevel negation level (x.words ++ rest)) =
      plain (readTail negation level x rest))
    (hrest : headStrength rest ≤ after) (hlt : after < level) :
    plain (readLevel negation level (x.words ++ rest)) = some (x, rest) := by
  rw [hread, plain_readTail_of_lt (Nat.lt_of_le_of_lt hrest hlt)]

/-- Reading the words of a stable phrase leaves the reader behind the phrase. -/
theorem plain_readLevel_words {negation : Nat} {p : Phrase} :
    ∀ {least after : Nat} {rest : List Word}, p.Stable negation least after →
      headStrength rest ≤ after →
      plain (readLevel negation least (p.words ++ rest)) =
        plain (readTail negation least p rest) := by
  induction p with
  | path text =>
    intro least after rest _ _
    rw [plain_readLevel, Phrase.words, List.singleton_append, readOperand]
    rfl
  | literal text =>
    intro least after rest _ _
    rw [plain_readLevel, Phrase.words, List.singleton_append, readOperand]
    rfl
  | null =>
    intro least after rest _ _
    rw [plain_readLevel, Phrase.words, List.singleton_append, readOperand]
    rfl
  | not x ih =>
    intro least after rest ⟨hlt, hx⟩ hrest
    have hop := plain_readOperand_not (plain_readLevel_of_stop (ih hx hrest) hrest hlt)
    rw [plain_readLevel, Phrase.words, List.cons_append, hop]
    rfl
  | negate x ih =>
    intro least after rest ⟨hlt, hx⟩ hrest
    have hop := plain_readOperand_minus (plain_readLevel_of_stop (ih hx hrest) hrest hlt)
    rw [plain_readLevel, Phrase.words, List.cons_append, hop]
    rfl
  | group x ih =>
    intro least after rest hx _
    have hinner := plain_readLevel_of_stop
      (ih hx (Nat.le_refl (headStrength (.closeParen :: rest)))) (Nat.le_refl 0) Nat.one_pos
    rw [plain_readLevel, Phrase.words, List.cons_append, List.append_assoc, List.singleton_append,
      plain_readOperand_group hinner]
    rfl
  | modulo l r ihl ihr =>
    intro least after rest ⟨hl, hr⟩ _
    have hright := plain_readLevel_of_stop
      (ihr hr (Nat.le_refl (headStrength (.closeParen :: rest)))) (Nat.le_refl 0) Nat.one_pos
    have hleft := plain_readLevel_of_stop
      (ihl hl (Nat.le_refl (headStrength (.comma :: (r.words ++ .closeParen :: rest)))))
      (Nat.le_refl 0) Nat.one_pos
    have hwords : (Phrase.modulo l r).words ++ rest =
        .mod :: .openParen :: (l.words ++ .comma :: (r.words ++ .closeParen :: rest)) := by
      simp [Phrase.words]
    rw [plain_readLevel, hwords, plain_readOperand_modulo hleft hright]
    rfl
  | binary op l r ihl ihr =>
    intro least after rest ⟨hleast, hafter, htest, hl, hr⟩ hrest
    -- What follows binds no tighter than `op`, so the right operand ends where its words do.
    have hright := plain_readLevel_of_stop (ihr hr hrest) hrest (Nat.lt_succ_of_le hafter)
    rw [Phrase.words, List.append_assoc, List.cons_append, ihl hl (Nat.le_refl _),
      plain_readTail_operator _ hleast htest, hright]
    rfl
  | isNull x ih =>
    intro least after rest ⟨hleast, _, htest, hx⟩ _
    rw [Phrase.words, List.append_assoc, List.cons_append, List.singleton_append,
      ih hx (Nat.le_refl _), plain_readTail_isNull _ hleast htest]
  | isNotNull x ih =>
    intro least after rest ⟨hleast, _, htest, hx⟩ _
    rw [Phrase.words, List.append_assoc, List.cons_append, List.cons_append, List.singleton_append,
      ih hx (Nat.le_refl _), plain_readTail_isNotNull _ hleast htest]

/-- A stable phrase is what its words are read as. -/
theorem readWords_words {negation : Nat} {p : Phrase} (h : p.Stable negation 1 0) :
    readWords negation p.words = some p := by
  have hread := plain_readLevel_words h (Nat.le_refl (headStrength []))
  rw [List.append_nil, plain_readTail_of_lt Nat.one_pos] at hread
  obtain ⟨_, hx⟩ := exists_of_plain hread
  rw [readWords, hx]

/-- A text that spells a stable phrase is read as the phrase. -/
theorem read_of_spells {negation : Nat} {p : Phrase} {text : String}
    (hp : p.Stable negation 1 0) (h : Spells text.toList p.words) :
    read negation text = some p := by
  rw [read, h.words_eq, Option.bind_some, readWords_words hp]

end EntityQuery.Jpql
