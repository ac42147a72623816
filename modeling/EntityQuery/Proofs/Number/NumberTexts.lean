import EntityQuery.Number.Binary64
import EntityQuery.Proofs.Token.ExactNumerals

/-!
# Texts of numbers

How natural numbers and decimal floating-point numbers may be written: with signs, a point on either
side of the digits, and an exponent. Main results: the readers take exactly the texts that are
written so, and read the number that they write.
-/

namespace EntityQuery

namespace Text

/-! ### Natural numbers -/

/-- Digits, with or without a plus sign before them, write a natural number. -/
inductive WritesNatural : List Char → Nat → Prop
  | digits {ds : List Char} (h : isDigits ds = true) : WritesNatural ds (digitsValue ds)
  | plus {ds : List Char} (h : isDigits ds = true) : WritesNatural ('+' :: ds) (digitsValue ds)

/-- Digits that are read onto a value make a larger one. -/
theorem le_ofDigitChars (ds : List Char) (value : Nat) : value ≤ Nat.ofDigitChars 10 ds value := by
  induction ds generalizing value with
  | nil => exact Nat.le_refl _
  | cons c ds ih =>
    rw [Nat.ofDigitChars_cons]
    exact Nat.le_trans (by omega) (ih _)

theorem accumulate_eq_ok_iff {bound value n : Nat} {cs : List Char} (hvalue : value ≤ bound) :
    accumulate bound value cs = .ok n ↔
      (∀ c ∈ cs, c.isDigit = true) ∧ Nat.ofDigitChars 10 cs value = n ∧ n ≤ bound := by
  induction cs generalizing value with
  | nil =>
    simp only [accumulate, Except.ok.injEq, List.not_mem_nil, false_implies, implies_true, true_and,
      Nat.ofDigitChars_nil]
    constructor
    · rintro rfl
      exact ⟨rfl, hvalue⟩
    · exact fun h => h.1
  | cons c cs ih =>
    rw [accumulate, List.forall_mem_cons, Nat.ofDigitChars_cons]
    by_cases hc : c.isDigit = true
    · simp only [if_pos hc]
      split
      · next hnext => rw [ih hnext]; simp [hc]
      · next hnext =>
        -- the value never falls again below the bound
        refine iff_of_false (by simp) fun ⟨_, hn, hle⟩ => ?_
        have hgrows := le_ofDigitChars cs (10 * value + (c.toNat - '0'.toNat))
        omega
    · rw [if_neg hc]
      exact iff_of_false (by simp) fun h => hc h.1.1

theorem accumulate_zero_eq_ok_iff {bound n : Nat} {cs : List Char} (hcs : cs ≠ []) :
    accumulate bound 0 cs = .ok n ↔ isDigits cs = true ∧ digitsValue cs = n ∧ n ≤ bound := by
  rw [accumulate_eq_ok_iff (Nat.zero_le _), isDigits_iff, digitsValue]
  simp [hcs]

/-- A text is read as a number of a bounded range exactly if it writes a number of that range. -/
theorem readBounded_eq_ok_iff {bound n : Nat} {cs : List Char} :
    readBounded bound cs = .ok n ↔ WritesNatural cs n ∧ n ≤ bound := by
  constructor
  · intro h
    unfold readBounded at h
    split at h
    · cases h
    · cases h
    · next cs hne =>
      obtain ⟨hdigits, rfl, hle⟩ := (accumulate_zero_eq_ok_iff fun hcs => hne (by rw [hcs])).mp h
      exact ⟨.plus hdigits, hle⟩
    · next cs hne _ _ =>
      obtain ⟨hdigits, rfl, hle⟩ := (accumulate_zero_eq_ok_iff hne).mp h
      exact ⟨.digits hdigits, hle⟩
  · rintro ⟨hwrites, hle⟩
    cases hwrites with
    | digits hdigits =>
      obtain ⟨hne, hall⟩ := isDigits_iff.mp hdigits
      unfold readBounded
      split
      · exact absurd rfl hne
      · exact absurd (hall '+' List.mem_cons_self) (by decide)
      · exact absurd (hall '+' List.mem_cons_self) (by decide)
      · exact (accumulate_zero_eq_ok_iff hne).mpr ⟨hdigits, rfl, hle⟩
    | @plus ds hdigits =>
      have hne := (isDigits_iff.mp hdigits).1
      rw [readBounded]
      · exact (accumulate_zero_eq_ok_iff hne).mpr ⟨hdigits, rfl, hle⟩
      · exact hne

/-- The characters that numbers are written in. -/
def isNumberChar (c : Char) : Bool := c.isDigit || ['+', '-', '.', 'e', 'E'].contains c

theorem isNumberChar_of_isDigit {c : Char} (h : c.isDigit = true) : isNumberChar c = true := by
  rw [isNumberChar, h, Bool.true_or]

theorem WritesNatural.ne_nil {cs : List Char} {n : Nat} (h : WritesNatural cs n) : cs ≠ [] := by
  cases h with
  | digits h => exact (isDigits_iff.mp h).1
  | plus => simp

theorem WritesNatural.eq_digitsValue {cs : List Char} {n : Nat} (h : WritesNatural cs n)
    (hdigits : isDigits cs = true) : n = digitsValue cs := by
  cases h with
  | digits => rfl
  | plus => exact absurd ((isDigits_iff.mp hdigits).2 '+' List.mem_cons_self) (by decide)

theorem WritesNatural.isNumberChar {cs : List Char} {n : Nat} (h : WritesNatural cs n) :
    ∀ c ∈ cs, isNumberChar c = true := by
  cases h with
  | digits h => exact fun c hc => isNumberChar_of_isDigit ((isDigits_iff.mp h).2 c hc)
  | plus h =>
    rw [List.forall_mem_cons]
    exact ⟨by decide, fun c hc => isNumberChar_of_isDigit ((isDigits_iff.mp h).2 c hc)⟩

end Text

namespace Binary64

open Text (isDigits digitsValue isNumberChar isDigits_iff)

/-! ### Decimal floating-point numbers -/

/-- A sign that may be absent, and whether it is a minus sign. -/
inductive WritesSign : List Char → Bool → Prop
  | absent : WritesSign [] false
  | plus : WritesSign ['+'] false
  | minus : WritesSign ['-'] true

/-- An exponent that may be absent. -/
inductive WritesExponent : List Char → Int → Prop
  | absent : WritesExponent [] 0
  | digits {mark : Char} {sign ds : List Char} {negative : Bool} (hmark : mark = 'e' ∨ mark = 'E')
      (hsign : WritesSign sign negative) (hds : isDigits ds = true) :
    WritesExponent (mark :: (sign ++ ds))
    (if negative then -(digitsValue ds : Int) else digitsValue ds)

theorem exists_of_splitSign (cs : List Char) :
    ∃ sign, WritesSign sign (splitSign cs).1 ∧ cs = sign ++ (splitSign cs).2 := by
  unfold splitSign
  split
  · exact ⟨['-'], .minus, rfl⟩
  · exact ⟨['+'], .plus, rfl⟩
  · exact ⟨[], .absent, rfl⟩

theorem splitSign_append {sign cs : List Char} {negative : Bool} (h : WritesSign sign negative)
    (hcs : ∀ c ∈ cs.head?, c ≠ '-' ∧ c ≠ '+') : splitSign (sign ++ cs) = (negative, cs) := by
  cases h with
  | plus => rfl
  | minus => rfl
  | absent =>
    rw [List.nil_append]
    unfold splitSign
    split
    · exact absurd rfl (hcs '-' rfl).1
    · exact absurd rfl (hcs '+' rfl).2
    · rfl

/-- Digits do not start with a sign. -/
theorem head_of_isDigit {cs : List Char} (h : ∀ c ∈ cs, c.isDigit = true) :
    ∀ c ∈ cs.head?, c ≠ '-' ∧ c ≠ '+' := by
  intro c hc
  have hdigit := h c (List.mem_of_mem_head? hc)
  constructor <;> (rintro rfl; exact absurd hdigit (by decide))

theorem readExponent_eq_some_iff {cs : List Char} {e : Int} :
    readExponent cs = some e ↔ WritesExponent cs e := by
  constructor
  · intro h
    cases cs with
    | nil =>
      cases h
      exact .absent
    | cons mark cs =>
      obtain ⟨sign, hsign, hcs⟩ := exists_of_splitSign cs
      simp only [readExponent] at h
      split at h
      · next hmark =>
        cases h
        simp only [Bool.and_eq_true, Bool.or_eq_true, beq_iff_eq] at hmark
        have hwrites := WritesExponent.digits hmark.1 hsign hmark.2
        rwa [← hcs] at hwrites
      · cases h
  · intro h
    cases h with
    | absent => rfl
    | digits hmark hsign hds =>
      have hsplit := splitSign_append hsign (head_of_isDigit (isDigits_iff.mp hds).2)
      rcases hmark with rfl | rfl <;> simp [readExponent, hsplit, hds]

theorem WritesExponent.head {cs : List Char} {e : Int} (h : WritesExponent cs e) :
    ∀ c ∈ cs.head?, c = 'e' ∨ c = 'E' := by
  cases h with
  | absent => simp
  | digits hmark =>
    rintro c ⟨⟩
    exact hmark

theorem WritesExponent.head_isDigit {cs : List Char} {e : Int} (h : WritesExponent cs e) :
    ∀ c ∈ cs.head?, c.isDigit = false := by
  intro c hc
  rcases h.head c hc with rfl | rfl <;> decide

/-- A point that may be absent where no digits stand behind it. -/
def IsPoint (point fraction : List Char) : Prop := point = ['.'] ∨ point = [] ∧ fraction = []

/-- Splits the digits behind a point from a text. -/
def splitFraction : List Char → List Char × List Char
  | '.' :: cs => (cs.takeWhile Char.isDigit, cs.dropWhile Char.isDigit)
  | cs => ([], cs)

theorem readScientific_eq (cs : List Char) : readScientific cs =
    let whole := (splitSign cs).2.takeWhile Char.isDigit
    let fraction := (splitFraction ((splitSign cs).2.dropWhile Char.isDigit)).1
    if whole.isEmpty && fraction.isEmpty then none
    else (readExponent (splitFraction ((splitSign cs).2.dropWhile Char.isDigit)).2).map fun e =>
      ⟨(splitSign cs).1, digitsValue (whole ++ fraction), e - fraction.length⟩ := rfl

theorem exists_of_splitFraction (cs : List Char) :
    ∃ point, IsPoint point (splitFraction cs).1 ∧ (∀ c ∈ (splitFraction cs).1, c.isDigit = true) ∧
      cs = point ++ ((splitFraction cs).1 ++ (splitFraction cs).2) := by
  unfold splitFraction
  split
  · refine ⟨['.'], .inl rfl, List.all_eq_true.mp List.all_takeWhile, ?_⟩
    rw [List.takeWhile_append_dropWhile]
    rfl
  · exact ⟨[], .inr ⟨rfl, rfl⟩, by simp, rfl⟩

theorem splitFraction_append {point fraction exponent : List Char} {e : Int}
    (hpoint : IsPoint point fraction) (hfraction : ∀ c ∈ fraction, c.isDigit = true)
    (hexponent : WritesExponent exponent e) :
    splitFraction (point ++ (fraction ++ exponent)) = (fraction, exponent) := by
  rcases hpoint with rfl | ⟨rfl, rfl⟩
  · obtain ⟨htake, hdrop⟩ := Text.takeWhile_append_stop hfraction hexponent.head_isDigit
    rw [List.cons_append, List.nil_append, splitFraction, htake, hdrop]
  · rw [List.nil_append, List.nil_append]
    unfold splitFraction
    split
    · exact absurd (hexponent.head '.' rfl) (by decide)
    · rfl

/-- What follows the digits before the point does not start with a digit, nor with a sign. -/
theorem head_point_append {point fraction exponent : List Char} {e : Int}
    (hpoint : IsPoint point fraction) (hexponent : WritesExponent exponent e) :
    ∀ c ∈ (point ++ (fraction ++ exponent)).head?, c.isDigit = false ∧ c ≠ '-' ∧ c ≠ '+' := by
  intro c hc
  rcases hpoint with rfl | ⟨rfl, rfl⟩
  · cases hc
    decide
  · rcases hexponent.head c hc with rfl | rfl <;> decide

/-- A sign, digits on at least one side of a point, and an exponent. -/
inductive Scientific.Writes : Scientific → List Char → Prop
  | mk {sign whole point fraction exponent : List Char} {negative : Bool} {e : Int}
      (hsign : WritesSign sign negative) (hwhole : ∀ c ∈ whole, c.isDigit = true)
      (hpoint : IsPoint point fraction) (hfraction : ∀ c ∈ fraction, c.isDigit = true)
      (hne : whole ++ fraction ≠ []) (hexponent : WritesExponent exponent e) :
    Scientific.Writes ⟨negative, digitsValue (whole ++ fraction), e - fraction.length⟩
      (sign ++ (whole ++ (point ++ (fraction ++ exponent))))

/-- A text is read as a decimal floating-point number exactly if it writes one. -/
theorem readScientific_eq_some_iff {cs : List Char} {x : Scientific} :
    readScientific cs = some x ↔ x.Writes cs := by
  constructor
  · intro h
    rw [readScientific_eq] at h
    obtain ⟨sign, hsign, hcs⟩ := exists_of_splitSign cs
    have hsplit := @List.takeWhile_append_dropWhile _ Char.isDigit (splitSign cs).2
    obtain ⟨point, hpoint, hfraction, hrest⟩ :=
      exists_of_splitFraction ((splitSign cs).2.dropWhile Char.isDigit)
    simp only at h
    split at h
    · cases h
    · next hne =>
      obtain ⟨e, he, rfl⟩ := Option.map_eq_some_iff.mp h
      have hwrites :=
        Scientific.Writes.mk hsign (List.all_eq_true.mp List.all_takeWhile) hpoint hfraction
        (by simpa using hne) (readExponent_eq_some_iff.mp he)
      rwa [← hrest, hsplit, ← hcs] at hwrites
  · rintro @⟨sign, whole, point, fraction, exponent, negative, e, hsign, hwhole, hpoint, hfraction,
      hne, hexponent⟩
    have hstop := head_point_append hpoint hexponent
    have hhead : ∀ c ∈ (whole ++ (point ++ (fraction ++ exponent))).head?, c ≠ '-' ∧ c ≠ '+' := by
      cases whole with
      | nil => exact fun c hc => (hstop c hc).2
      | cons d ds => exact @head_of_isDigit (d :: ds) hwhole
    obtain ⟨htake, hdrop⟩ := Text.takeWhile_append_stop hwhole fun c hc => (hstop c hc).1
    have hsome : ¬ (whole.isEmpty && fraction.isEmpty) = true := by simpa using hne
    rw [readScientific_eq, splitSign_append hsign hhead]
    simp only [htake, hdrop, splitFraction_append hpoint hfraction hexponent, if_neg hsome,
      readExponent_eq_some_iff.mpr hexponent, Option.map_some]

/-! ### The characters of a number -/

theorem WritesSign.isNumberChar {cs : List Char} {negative : Bool} (h : WritesSign cs negative) :
    ∀ c ∈ cs, isNumberChar c = true := by
  cases h <;> simp [Text.isNumberChar]

theorem WritesExponent.isNumberChar {cs : List Char} {e : Int} (h : WritesExponent cs e) :
    ∀ c ∈ cs, isNumberChar c = true := by
  cases h with
  | absent => simp
  | digits hmark hsign hds =>
    rw [List.forall_mem_cons, List.forall_mem_append]
    refine ⟨?_, hsign.isNumberChar,
      fun c hc => Text.isNumberChar_of_isDigit ((isDigits_iff.mp hds).2 c hc)⟩
    rcases hmark with rfl | rfl <;> decide

theorem Scientific.Writes.isNumberChar {x : Scientific} {cs : List Char} (h : x.Writes cs) :
    ∀ c ∈ cs, isNumberChar c = true := by
  obtain ⟨hsign, hwhole, hpoint, hfraction, _, hexponent⟩ := h
  simp only [List.forall_mem_append]
  refine ⟨hsign.isNumberChar, fun c hc => Text.isNumberChar_of_isDigit (hwhole c hc), ?_,
    fun c hc => Text.isNumberChar_of_isDigit (hfraction c hc), hexponent.isNumberChar⟩
  rcases hpoint with rfl | ⟨rfl, _⟩ <;> simp [Text.isNumberChar]

theorem Scientific.Writes.ne_nil {x : Scientific} {cs : List Char} (h : x.Writes cs) : cs ≠ [] := by
  obtain ⟨_, _, _, _, hne, _⟩ := h
  simp only [ne_eq, List.append_eq_nil_iff, not_and] at hne ⊢
  exact fun _ hwhole _ hfraction => absurd hfraction (hne hwhole)

/-- Digits with or without a fraction write a number without sign and exponent. -/
theorem Scientific.writes_of_digitsAndPlaces? {cs : List Char} {n places : Nat}
    (h : Text.digitsAndPlaces? cs = some (n, places)) :
    Scientific.Writes ⟨false, n, 0 - places⟩ cs := by
  obtain ⟨whole, fraction, hwhole, hfraction, rfl, rfl, rfl⟩ :=
    Text.digitsAndPlaces?_eq_some_iff.mp h
  obtain ⟨hne, hdigits⟩ := isDigits_iff.mp hwhole
  have hpoint : IsPoint (if fraction.isEmpty then [] else ['.']) fraction := by
    cases fraction with
    | nil => exact .inr ⟨rfl, rfl⟩
    | cons c cs => exact .inl rfl
  have hwrites := Scientific.Writes.mk .absent hdigits hpoint hfraction (by simp [hne]) .absent
  have htext : (if fraction.isEmpty then [] else ['.']) ++ fraction = Text.pointed fraction := by
    cases fraction <;> rfl
  rwa [List.nil_append, List.append_nil, htext] at hwrites

end Binary64

end EntityQuery
