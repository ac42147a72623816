import EntityQuery.Literal.Numeral
import EntityQuery.Literal.Typed
import EntityQuery.Text.Blank
import EntityQuery.Text.Word

/-!
# Characters of literal texts

Which characters the texts of literals are made of: digits and a point in numerals, no quote in
hexadecimal texts, no closing brace in dates and times.
-/

namespace EntityQuery

namespace Text

/-- Digits are the characters from `0` to `9`. -/
theorem isDigit_iff {c : Char} : c.isDigit = true ↔ 48 ≤ c.toNat ∧ c.toNat ≤ 57 := by
  simp only [Char.isDigit, Bool.and_eq_true, decide_eq_true_eq]
  exact Iff.rfl

/-- Letters of the Latin alphabet are those from `A` to `Z` and from `a` to `z`. -/
theorem isAlpha_iff {c : Char} : c.isAlpha = true ↔
    65 ≤ c.toNat ∧ c.toNat ≤ 90 ∨ 97 ≤ c.toNat ∧ c.toNat ≤ 122 := by
  have hupper : c.isUpper = true ↔ 65 ≤ c.toNat ∧ c.toNat ≤ 90 :=
    decide_eq_true_iff (p := c.val ≥ 'A'.val ∧ c.val ≤ 'Z'.val)
  have hlower : c.isLower = true ↔ 97 ≤ c.toNat ∧ c.toNat ≤ 122 :=
    Bool.and_eq_true_iff.trans (and_congr decide_eq_true_iff decide_eq_true_iff)
  exact Bool.or_eq_true_iff.trans (or_congr hupper hlower)

theorem inRanges_cons_of_mem {n lo hi : Nat} {rest : List (Nat × Nat)} (hl : lo ≤ n)
    (hh : n ≤ hi) : inRanges n ((lo, hi) :: rest) = true := by
  rw [inRanges, decide_eq_true hl, decide_eq_true hh]
  rfl

theorem inRanges_cons_of_inRanges {n lo hi : Nat} {rest : List (Nat × Nat)} (hl : lo ≤ n)
    (h : inRanges n rest = true) : inRanges n ((lo, hi) :: rest) = true := by
  rw [inRanges, decide_eq_true hl, h, Bool.or_true]
  rfl

theorem inRanges_cons_of_lt {n lo hi : Nat} {rest : List (Nat × Nat)} (h : n < lo) :
    inRanges n ((lo, hi) :: rest) = false := by
  rw [inRanges, decide_eq_false (Nat.not_le.mpr h)]
  rfl

theorem isNumeric_of_isDigit {c : Char} (h : c.isDigit = true) : isNumeric c = true := by
  obtain ⟨hl, hh⟩ := isDigit_iff.mp h
  unfold isNumeric numericRanges
  exact inRanges_cons_of_mem hl hh

theorem isAlphabetic_of_isDigit {c : Char} (h : c.isDigit = true) : isAlphabetic c = false := by
  obtain ⟨_, hh⟩ := isDigit_iff.mp h
  unfold isAlphabetic alphabeticRanges
  exact inRanges_cons_of_lt (by omega)

theorem isWordPart_of_isDigit {c : Char} (h : c.isDigit = true) : isWordPart c = true := by
  simp [isWordPart, isNumeric_of_isDigit h]

theorem isWordStart_of_isDigit {c : Char} (h : c.isDigit = true) : isWordStart c = false := by
  have hne : c ≠ '_' := by rintro rfl; simp at h
  simp [isWordStart, isAlphabetic_of_isDigit h, hne]

theorem isBlank_of_isDigit {c : Char} (h : c.isDigit = true) : isBlank c = false := by
  obtain ⟨hl, hh⟩ := isDigit_iff.mp h
  simp only [isBlank, blankRanges, inRanges, Bool.and_eq_false_iff, Bool.or_eq_false_iff,
    decide_eq_false_iff_not]
  omega

theorem isAlpha_of_isDigit {c : Char} (h : c.isDigit = true) : c.isAlpha = false := by
  obtain ⟨_, hh⟩ := isDigit_iff.mp h
  rw [← Bool.not_eq_true, isAlpha_iff]
  omega

theorem isWordStart_of_isAlpha {c : Char} (h : c.isAlpha = true) : isWordStart c = true := by
  have halphabetic : isAlphabetic c = true := by
    unfold isAlphabetic alphabeticRanges
    rcases isAlpha_iff.mp h with ⟨hl, hh⟩ | ⟨hl, hh⟩
    · exact inRanges_cons_of_mem hl hh
    · have hl' : 65 ≤ c.toNat := Nat.le_trans (by decide) hl
      exact inRanges_cons_of_inRanges hl' (inRanges_cons_of_mem hl hh)
  rw [isWordStart, halphabetic]
  rfl

/-- The text of a natural number consists of digits. -/
theorem isDigit_of_mem_repr {n : Nat} {c : Char} (h : c ∈ n.repr.toList) : c.isDigit = true := by
  rw [Nat.toList_repr] at h
  exact Nat.isDigit_of_mem_toDigits (by decide) (by decide) h

theorem isDigits_iff {cs : List Char} :
    isDigits cs = true ↔ cs ≠ [] ∧ ∀ c ∈ cs, c.isDigit = true := by
  simp [isDigits]

theorem isDigits_repr (n : Nat) : isDigits n.repr.toList = true :=
  isDigits_iff.mpr ⟨by simp, fun _ hc => isDigit_of_mem_repr hc⟩

/-- Reading undoes writing. -/
theorem digitsValue_repr (n : Nat) : digitsValue n.repr.toList = n := by
  rw [digitsValue, Nat.toList_repr, Nat.ofDigitChars_ten_toDigits]

theorem isDigit_of_mem_paddedText {width n : Nat} {c : Char}
    (h : c ∈ (paddedText width n).toList) : c.isDigit = true := by
  simp only [paddedText, String.toList_append, String.toList_ofList, List.mem_append,
    List.mem_replicate] at h
  rcases h with ⟨_, rfl⟩ | h
  · rfl
  · exact isDigit_of_mem_repr h

/-- A digit first, and nothing but digits and points. -/
def isNumeral (cs : List Char) : Bool :=
  cs.head?.any Char.isDigit && cs.all fun c => c.isDigit || c == '.'

theorem isNumeral_of_digits {ds : List Char} (hne : ds ≠ [])
    (h : ∀ c ∈ ds, c.isDigit = true) : isNumeral ds = true := by
  cases ds with
  | nil => exact absurd rfl hne
  | cons d ds =>
    simp only [List.mem_cons, forall_eq_or_imp] at h
    simp only [isNumeral, List.head?_cons, Option.any_some, List.all_cons, Bool.and_eq_true,
      Bool.or_eq_true, List.all_eq_true]
    exact ⟨h.1, .inl h.1, fun c hc => .inl (h.2 c hc)⟩

theorem isNumeral_of_fraction {ds fs : List Char} (hne : ds ≠ [])
    (hd : ∀ c ∈ ds, c.isDigit = true) (hf : ∀ c ∈ fs, c.isDigit = true) :
    isNumeral (ds ++ '.' :: fs) = true := by
  have h := isNumeral_of_digits hne hd
  simp only [isNumeral, Bool.and_eq_true, List.all_eq_true] at h ⊢
  constructor
  · cases ds with
    | nil => exact absurd rfl hne
    | cons d ds => exact h.1
  · intro c hc
    simp only [List.mem_append, List.mem_cons] at hc
    rcases hc with hc | rfl | hc
    · exact h.2 c hc
    · rfl
    · simp [hf c hc]

theorem isNumeral_repr (n : Nat) : isNumeral n.repr.toList = true :=
  isNumeral_of_digits (by simp) fun _ hc => isDigit_of_mem_repr hc

/-! ### Quoted texts -/

theorem unquote_end {rest : List Char} (h : rest.head? ≠ some '\'') :
    unquote ('\'' :: rest) = some ([], 1) := by
  cases rest with
  | nil => rfl
  | cons c rest =>
    have hc : c ≠ '\'' := by simpa using h
    simp [unquote, hc]

theorem unquote_cons {c : Char} (hc : c ≠ '\'') (cs : List Char) :
    unquote (c :: cs) = (unquote cs).map fun x => (c :: x.1, x.2 + 1) := by
  simp [unquote, hc]

/-- Reading undoes the doubling of quotes and stops at the closing quote. -/
theorem unquote_doubleQuotes (cs : List Char) {rest : List Char} (h : rest.head? ≠ some '\'') :
    unquote (doubleQuotes cs ++ '\'' :: rest) = some (cs, (doubleQuotes cs).length + 1) := by
  induction cs with
  | nil => exact unquote_end h
  | cons c cs ih =>
    by_cases hc : c = '\''
    · subst hc
      simp [doubleQuotes, unquote, ih]
    · simp [doubleQuotes, hc, unquote_cons, ih]

theorem doubleQuotes_of_no_quote {cs : List Char} (h : ∀ c ∈ cs, c ≠ '\'') :
    doubleQuotes cs = cs := by
  induction cs with
  | nil => rfl
  | cons c cs ih =>
    simp only [List.mem_cons, forall_eq_or_imp] at h
    rw [doubleQuotes, if_neg h.1, ih h.2]

/-! ### Hexadecimal texts -/

/-- Bytes are read back from their digits. -/
theorem hexBytes?_hexChars {digit : Nat → Char} (h : ∀ n, n < 16 → hexValue? (digit n) = some n)
    (bytes : List UInt8) : hexBytes? (hexChars digit bytes) = some bytes := by
  induction bytes with
  | nil => rfl
  | cons b rest ih =>
    have hlt : b.toNat < 256 := b.toNat_lt
    have hchars : hexChars digit (b :: rest) =
        digit (b.toNat / 16) :: digit (b.toNat % 16) :: hexChars digit rest := rfl
    have hbyte : 16 * (b.toNat / 16) + b.toNat % 16 = b.toNat := by omega
    rw [hchars, hexBytes?, h _ (by omega), h _ (by omega), ih]
    simp only [hbyte, UInt8.ofNat_toNat]

theorem hexBytes?_upperHexText (bytes : List UInt8) :
    hexBytes? (upperHexText bytes).toList = some bytes := by
  rw [upperHexText, String.toList_ofList]
  exact hexBytes?_hexChars (by decide) bytes

private theorem quote_notMem_hexChars {digit : Nat → Char} (h : ∀ n, n < 16 → digit n ≠ '\'')
    (bytes : List UInt8) : ∀ c ∈ hexChars digit bytes, c ≠ '\'' := by
  intro c hc
  simp only [hexChars, List.mem_flatMap, List.mem_cons, List.not_mem_nil, or_false] at hc
  obtain ⟨b, _, hb⟩ := hc
  have hlt : b.toNat < 256 := b.toNat_lt
  rcases hb with rfl | rfl
  · exact h _ (by omega)
  · exact h _ (by omega)

theorem quote_notMem_hexText (bytes : List UInt8) : ∀ c ∈ (hexText bytes).toList, c ≠ '\'' := by
  rw [hexText, String.toList_ofList]
  exact quote_notMem_hexChars (by decide) bytes

theorem quote_notMem_upperHexText (bytes : List UInt8) :
    ∀ c ∈ (upperHexText bytes).toList, c ≠ '\'' := by
  rw [upperHexText, String.toList_ofList]
  exact quote_notMem_hexChars (by decide) bytes

end Text

theorem Guid.quote_notMem_text (g : Guid) : ∀ c ∈ g.text.toList, c ≠ '\'' := by
  intro c hc
  simp only [Guid.text, String.toList_append, List.mem_append] at hc
  have hyphen : c ∈ "-".toList → c ≠ '\'' := by
    intro h
    obtain rfl : c = '-' := by simpa using h
    decide
  rcases hc with (((((((hc | hc) | hc) | hc) | hc) | hc) | hc) | hc) | hc
  · exact Text.quote_notMem_hexText _ c hc
  · exact hyphen hc
  · exact Text.quote_notMem_hexText _ c hc
  · exact hyphen hc
  · exact Text.quote_notMem_hexText _ c hc
  · exact hyphen hc
  · exact Text.quote_notMem_hexText _ c hc
  · exact hyphen hc
  · exact Text.quote_notMem_hexText _ c hc

/-! ### Dates and times -/

/-- A character that stands in the text of a date or a time. -/
def isClockChar (c : Char) : Bool := c.isDigit || ['-', '+', ':', '.', ' '].contains c

private theorem isClockChar_of_isDigit {c : Char} (h : c.isDigit = true) :
    isClockChar c = true := by
  simp [isClockChar, h]

private theorem isClockChar_of_mem_padded {width n : Nat} {c : Char}
    (h : c ∈ (Text.paddedText width n).toList) : isClockChar c = true :=
  isClockChar_of_isDigit (Text.isDigit_of_mem_paddedText h)

theorem TimeOfDay.isClockChar_of_mem_text {t : TimeOfDay} {c : Char} (h : c ∈ t.text.toList) :
    isClockChar c = true := by
  simp only [TimeOfDay.text, String.toList_append, List.mem_append] at h
  rcases h with (((h | h) | h) | h) | h
  · exact isClockChar_of_mem_padded h
  · obtain rfl : c = ':' := by simpa using h
    rfl
  · exact isClockChar_of_mem_padded h
  · obtain rfl : c = ':' := by simpa using h
    rfl
  · exact isClockChar_of_mem_padded h

theorem Date.isClockChar_of_mem_yearText {year : Int} {c : Char}
    (h : c ∈ (Date.yearText year).toList) : isClockChar c = true := by
  unfold Date.yearText at h
  split at h
  · exact isClockChar_of_mem_padded h
  · simp only [String.toList_append, List.mem_append] at h
    rcases h with h | h
    · split at h
      · obtain rfl : c = '-' := by simpa using h
        rfl
      · obtain rfl : c = '+' := by simpa using h
        rfl
    · exact isClockChar_of_mem_padded h

theorem Date.isClockChar_of_mem_text {d : Date} {c : Char} (h : c ∈ d.text.toList) :
    isClockChar c = true := by
  simp only [Date.text, String.toList_append, List.mem_append] at h
  rcases h with (((h | h) | h) | h) | h
  · exact Date.isClockChar_of_mem_yearText h
  · obtain rfl : c = '-' := by simpa using h
    rfl
  · exact isClockChar_of_mem_padded h
  · obtain rfl : c = '-' := by simpa using h
    rfl
  · exact isClockChar_of_mem_padded h

theorem DateTime.isClockChar_of_mem_milliText {t : DateTime} {c : Char}
    (h : c ∈ t.milliText.toList) : isClockChar c = true := by
  simp only [DateTime.milliText, TimeOfDay.milliText, String.toList_append, List.mem_append] at h
  rcases h with (h | h) | (h | h) | h
  · exact Date.isClockChar_of_mem_text h
  · obtain rfl : c = ' ' := by simpa using h
    rfl
  · exact TimeOfDay.isClockChar_of_mem_text h
  · obtain rfl : c = '.' := by simpa using h
    rfl
  · exact isClockChar_of_mem_padded h

/-! ### Floating-point numbers -/

namespace Binary64

/-- Positional notation is a numeral. -/
theorem isNumeral_positional (a : Nat) (p : Int) :
    Text.isNumeral (positional a p).toList = true := by
  have hzero (n : Nat) : ∀ c ∈ List.replicate n '0', c.isDigit = true := by
    intro c hc
    rw [(List.mem_replicate.mp hc).2]
    rfl
  unfold positional
  split
  · rw [String.toList_ofList]
    apply Text.isNumeral_of_digits
    · simp
    · intro c hc
      rcases List.mem_append.mp hc with hc | hc
      · exact Text.isDigit_of_mem_repr hc
      · exact hzero _ c hc
  · next hp =>
    simp only [String.toList_ofList]
    generalize hpad : List.replicate ((-p).toNat + 1 - a.repr.toList.length) '0' ++ a.repr.toList =
      padded
    have hdigits : ∀ c ∈ padded, c.isDigit = true := by
      intro c hc
      rw [← hpad] at hc
      rcases List.mem_append.mp hc with hc | hc
      · exact hzero _ c hc
      · exact Text.isDigit_of_mem_repr hc
    have hlen : (-p).toNat + 1 ≤ padded.length := by
      rw [← hpad, List.length_append, List.length_replicate]
      omega
    apply Text.isNumeral_of_fraction
    · intro h
      have h := congrArg List.length h
      rw [List.length_take, List.length_nil] at h
      omega
    · exact fun c hc => hdigits c (List.mem_of_mem_take hc)
    · exact fun c hc => hdigits c (List.mem_of_mem_drop hc)

/-- The text of a number is a numeral, with a minus sign before a negative one. -/
theorem text_eq (x : Binary64) : ∃ numeral : String, Text.isNumeral numeral.toList = true ∧
    (x.text = numeral ∨ x.text = "-" ++ numeral) := by
  unfold text
  refine ⟨if x.significand = 0 then "0" else positional x.shortest.1 x.shortest.2, ?_, ?_⟩
  · split
    · rfl
    · exact isNumeral_positional _ _
  · cases x.negative with
    | true => exact .inr rfl
    | false => exact .inl rfl

end Binary64

end EntityQuery
