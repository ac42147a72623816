import EntityQuery.Proofs.Text.Characters

/-!
# Integers as literals

An integer is written as digits, with or without a minus sign. Such a text is one numeral, and its
literal has the narrowest type that holds the integer. Main result: the type of the literal may
stand for an integral type exactly if the integer lies in the range of that type.
-/

namespace EntityQuery

/-! ### Texts of integers -/

/-- The integer that a run of digits denotes, with or without a minus sign. -/
inductive Text.Denotes : List Char → Int → Prop
  | digits {ds : List Char} (h : isDigits ds = true) : Denotes ds (digitsValue ds)
  | minus {ds : List Char} (h : isDigits ds = true) : Denotes ('-' :: ds) (-(digitsValue ds))

theorem Text.Denotes.ne_nil {cs : List Char} {n : Int} (h : Denotes cs n) : cs ≠ [] := by
  cases h with
  | digits h => exact (isDigits_iff.mp h).1
  | minus _ => exact List.cons_ne_nil _ _

/-- The text of an integer denotes it. -/
theorem Text.denotes_integerText (n : Int) : Denotes (integerText n).toList n := by
  cases n with
  | ofNat n =>
    have h := Denotes.digits (isDigits_repr n)
    rwa [digitsValue_repr] at h
  | negSucc n =>
    have h := Denotes.minus (isDigits_repr (n + 1))
    have htext : (integerText (.negSucc n)).toList = '-' :: (n + 1).repr.toList := by
      simp [integerText]
    rw [digitsValue_repr] at h
    rw [htext]
    exact h

/-- The literal of an integer that is written as `cs`: the integer in its narrowest type where 64
bits hold it, else a decimal that keeps the text. -/
def Literal.ofInteger (cs : List Char) (n : Int) : Literal :=
  if Numeral.minInt64 ≤ n ∧ n ≤ Numeral.maxInt64 then .integer n
  else ⟨.decimal, .decimal (String.ofList cs)⟩

namespace Numeral

/-- The numeral without fraction, exponent and type letter. -/
def plain (sign whole : List Char) : Numeral := ⟨sign, whole, [], [], [], []⟩

theorem body_plain (sign whole : List Char) : (plain sign whole).body = sign ++ whole := by
  simp [body, plain]

theorem chars_plain (sign whole : List Char) : (plain sign whole).chars = sign ++ whole := by
  rw [chars, body_plain]
  exact List.append_nil _

/-- Nothing stands behind the digits that a fraction, an exponent or a type letter could be taken
from. -/
private theorem scan_of_takeSign {cs sign ds : List Char} (hs : takeSign cs = (sign, ds))
    (hd : ∀ c ∈ ds, c.isDigit = true) : scan cs = (plain sign ds, []) := by
  have htake : ds.takeWhile Char.isDigit = ds := by
    simpa using @List.takeWhile_append_of_pos Char Char.isDigit ds [] hd
  have hdrop : ds.dropWhile Char.isDigit = [] := by
    simpa using @List.dropWhile_append_of_pos Char Char.isDigit ds [] hd
  simp only [scan, hs, htake, hdrop]
  rfl

private theorem takeSign_of_digits {ds : List Char} (hd : ∀ c ∈ ds, c.isDigit = true) :
    takeSign ds = ([], ds) := by
  unfold takeSign
  split
  · exact absurd (hd '-' List.mem_cons_self) (by decide)
  · rfl

private theorem literal?_plain {sign whole : List Char} (h : whole ≠ []) :
    (plain sign whole).literal? =
      some (.ofInteger (sign ++ whole) (plain sign whole).integerValue) := by
  have hwhole : ¬ (plain sign whole).whole.isEmpty = true := by simpa [plain] using h
  have hinteger : (plain sign whole).literal? =
      some (((plain sign whole).int64?.map Literal.integer).getD (plain sign whole).decimal) := by
    rw [literal?, if_neg hwhole]
    cases (plain sign whole).int64? <;> rfl
  rw [hinteger, int64?, Literal.ofInteger]
  by_cases hfits : minInt64 ≤ (plain sign whole).integerValue ∧
    (plain sign whole).integerValue ≤ maxInt64
  · rw [if_pos hfits, if_pos hfits]
    rfl
  · rw [if_neg hfits, if_neg hfits, decimal, body_plain]
    rfl

end Numeral

/-- A text that denotes an integer is one numeral, with the literal of the integer. -/
theorem Text.Denotes.exists_scan {cs : List Char} {n : Int} (h : Denotes cs n) :
    ∃ m, Numeral.scan cs = (m, []) ∧ m.chars = cs ∧ m.literal? = some (.ofInteger cs n) := by
  cases h with
  | @digits _ h =>
    obtain ⟨hne, hall⟩ := isDigits_iff.mp h
    exact ⟨.plain [] cs, Numeral.scan_of_takeSign (Numeral.takeSign_of_digits hall) hall,
      Numeral.chars_plain [] cs, Numeral.literal?_plain hne⟩
  | @minus ds h =>
    obtain ⟨hne, hall⟩ := isDigits_iff.mp h
    exact ⟨.plain ['-'] ds, Numeral.scan_of_takeSign rfl hall, Numeral.chars_plain ['-'] ds,
      Numeral.literal?_plain hne⟩

/-! ### Ranges -/

/-- The least and the greatest value of an integral type. -/
def SimpleType.range? : SimpleType → Option (Int × Int)
  | .sbyte => some (-128, 127)
  | .byte => some (0, 255)
  | .int16 => some (-32768, 32767)
  | .int32 => some (-2147483648, 2147483647)
  | .int64 => some (Numeral.minInt64, Numeral.maxInt64)
  | _ => none

/-- Of the integral types, the narrowest type of an integer may stand exactly for those that hold
it. -/
theorem SimpleType.accepts_narrowestType_iff {t : SimpleType} {lo hi : Int}
    (ht : t.range? = some (lo, hi)) {n : Int} (hn : Numeral.minInt64 ≤ n ∧ n ≤ Numeral.maxInt64) :
    t.accepts (Literal.narrowestType n) = true ↔ lo ≤ n ∧ n ≤ hi := by
  simp only [Numeral.minInt64, Numeral.maxInt64] at hn
  cases t with
  | sbyte | byte | int16 | int32 | int64 =>
    cases ht
    simp only [Literal.narrowestType, Numeral.minInt64, Numeral.maxInt64]
    repeat' split
    all_goals first
      | exact iff_of_true rfl ⟨by omega, by omega⟩
      | exact iff_of_false (by decide) (by omega)
  | _ => cases ht

/-- Floating-point types and decimals take every integer that has an integral type. -/
theorem SimpleType.accepts_narrowestType {t : SimpleType} (ht : t ∈ [single, double, decimal])
    (n : Int) :
    t.accepts (Literal.narrowestType n) = true := by
  have hall : ∀ t ∈ [single, double, decimal], ∀ s ∈ [bit, uint7, sbyte, byte, int16, int32, int64],
      t.accepts s = true := by decide
  refine hall t ht _ ?_
  unfold Literal.narrowestType
  repeat' split
  all_goals decide

/-- A decimal is widened to nothing else. -/
theorem SimpleType.accepts_decimal_iff {t : SimpleType} :
    t.accepts .decimal = true ↔ t = .decimal := by
  cases t <;> decide

/-- All integral types lie within 64 bits. -/
theorem SimpleType.range?_le {t : SimpleType} {lo hi : Int} (h : t.range? = some (lo, hi)) :
    Numeral.minInt64 ≤ lo ∧ hi ≤ Numeral.maxInt64 := by
  cases t with
  | sbyte | byte | int16 | int32 | int64 =>
    cases h
    decide
  | _ => cases h

/-- Every text of an integer, however long and with whatever zeros in front, has a literal. An
integral type takes the literal exactly if the integer is in its range; decimals take it in any
case, and the floating-point types exactly if 64 bits hold the integer. -/
theorem accepts_integer_iff (text : String) (n : Int) (h : Text.Denotes text.toList n) :
    ∃ m l, Numeral.scan text.toList = (m, []) ∧ m.literal? = some l ∧
      (∀ t lo hi, SimpleType.range? t = some (lo, hi) →
        (t.accepts l.type = true ↔ lo ≤ n ∧ n ≤ hi)) ∧
      SimpleType.accepts .decimal l.type = true ∧
      (SimpleType.accepts .single l.type = true ↔ Numeral.minInt64 ≤ n ∧ n ≤ Numeral.maxInt64) ∧
      (SimpleType.accepts .double l.type = true ↔ Numeral.minInt64 ≤ n ∧ n ≤ Numeral.maxInt64) := by
  obtain ⟨m, hscan, _, hliteral⟩ := h.exists_scan
  refine ⟨m, _, hscan, hliteral, ?_⟩
  unfold Literal.ofInteger
  split
  · next hn =>
    have hwide {t : SimpleType} (ht : t ∈ [.single, .double, .decimal]) :=
      SimpleType.accepts_narrowestType ht n
    exact ⟨fun t lo hi ht => SimpleType.accepts_narrowestType_iff ht hn, hwide (by decide),
      iff_of_true (hwide (by decide)) hn, iff_of_true (hwide (by decide)) hn⟩
  · next hn =>
    refine ⟨fun t lo hi ht => iff_of_false ?_ ?_, rfl, iff_of_false ?_ hn, iff_of_false ?_ hn⟩
    · intro haccepts
      obtain rfl := SimpleType.accepts_decimal_iff.mp haccepts
      cases ht
    · intro hrange
      obtain ⟨hlo, hhi⟩ := SimpleType.range?_le ht
      omega
    · exact fun haccepts => by cases SimpleType.accepts_decimal_iff.mp haccepts
    · exact fun haccepts => by cases SimpleType.accepts_decimal_iff.mp haccepts

/-- A sign, zeros in front and a value just outside of one type: `-00129` is no signed byte but a
number of 16 bits. -/
theorem accepts_integer_minus_129 :
    ∃ m l, Numeral.scan "-00129".toList = (m, []) ∧ m.literal? = some l ∧
    ¬ SimpleType.accepts .sbyte l.type = true ∧ SimpleType.accepts .int16 l.type = true ∧
    SimpleType.accepts .double l.type = true := by
  have hdenotes : Text.Denotes "-00129".toList (-129) := by
    exact @Text.Denotes.minus "00129".toList (by decide)
  obtain ⟨m, l, hscan, hliteral, hrange, _, _, hdouble⟩ :=
    accepts_integer_iff "-00129" (-129) hdenotes
  refine ⟨m, l, hscan, hliteral, ?_, (hrange .int16 _ _ rfl).mpr (by decide),
    hdouble.mpr (by decide)⟩
  intro hsbyte
  exact absurd ((hrange .sbyte _ _ rfl).mp hsbyte) (by decide)

end EntityQuery
