import EntityQuery.Proofs.Literal.Scanning
import EntityQuery.Proofs.Token.Layout
import EntityQuery.Proofs.Token.ReadBack

/-!
# Numerals with an exact value

A text of digits, with or without a minus sign and a point, denotes a rational number. Main result:
such a text, on its own or before a letter for decimals or for integers of 64 bits, is one literal
whose own text denotes the same number. Only an integer that 64 bits do not hold is refused before
the letter for them.
-/

namespace EntityQuery

namespace Text

/-! ### The number that a text denotes -/

/-- The number of the digits of a text with at most one point, and how many of them stand behind the
point. -/
def digitsAndPlaces? (cs : List Char) : Option (Nat × Nat) :=
  match cs.takeWhile Char.isDigit, cs.dropWhile Char.isDigit with
  | whole, [] => if isDigits whole then some (digitsValue whole, 0) else none
  | whole, '.' :: fraction =>
    if isDigits whole && isDigits fraction then
      some (digitsValue (whole ++ fraction), fraction.length)
    else none
  | _, _ => none

/-- The rational number that a text denotes: digits, with or without a minus sign before them and a
point among them. -/
def rational? : List Char → Option Rat
  | '-' :: cs => (digitsAndPlaces? cs).map fun (n, places) => mkRat (-(n : Int)) (Nat.pow 10 places)
  | cs => (digitsAndPlaces? cs).map fun (n, places) => mkRat n (Nat.pow 10 places)

example : rational? "-012.50".toList = some (mkRat (-25) 2) := by decide +kernel

example : rational? "12.".toList = none := by decide +kernel

/-- A point before the digits of a fraction. -/
def pointed (fraction : List Char) : List Char := if fraction.isEmpty then [] else '.' :: fraction

theorem pointed_of_ne_nil {fraction : List Char} (h : fraction ≠ []) :
    pointed fraction = '.' :: fraction :=
  if_neg (by simpa using h)

/-- A point or what stands behind a number without one ends the digits before it. -/
theorem head_pointed_append {fraction rest : List Char}
    (hrest : ∀ c ∈ rest.head?, c.isDigit = false) :
    ∀ c ∈ (pointed fraction ++ rest).head?, c.isDigit = false := by
  cases fraction with
  | nil => exact hrest
  | cons d ds =>
    rintro c ⟨⟩
    decide

/-- A number is digits, and digits behind a point where it has any. -/
theorem digitsAndPlaces?_eq_some_iff {cs : List Char} {v places : Nat} :
    digitsAndPlaces? cs = some (v, places) ↔
      ∃ whole fraction, isDigits whole = true ∧ (∀ c ∈ fraction, c.isDigit = true) ∧
        cs = whole ++ pointed fraction ∧ v = digitsValue (whole ++ fraction) ∧
          places = fraction.length := by
  constructor
  · intro h
    have hsplit := @List.takeWhile_append_dropWhile _ Char.isDigit cs
    unfold digitsAndPlaces? at h
    split at h
    · next hdrop =>
      rw [hdrop] at hsplit
      split at h
      · next hwhole =>
        cases h
        exact ⟨_, [], hwhole, by simp, hsplit.symm, by rw [List.append_nil], rfl⟩
      · cases h
    · next fraction hdrop =>
      rw [hdrop] at hsplit
      split at h
      · next hdigits =>
        cases h
        obtain ⟨hwhole, hfraction⟩ := Bool.and_eq_true_iff.mp hdigits
        obtain ⟨hne, hall⟩ := isDigits_iff.mp hfraction
        exact ⟨_, fraction, hwhole, hall, by rw [pointed_of_ne_nil hne, hsplit], rfl, rfl⟩
      · cases h
    · cases h
  · rintro ⟨whole, fraction, hwhole, hfraction, rfl, rfl, rfl⟩
    have hstop : ∀ c ∈ (pointed fraction).head?, c.isDigit = false := by
      simpa using @head_pointed_append fraction [] (by simp)
    obtain ⟨htake, hdrop⟩ := takeWhile_append_stop (isDigits_iff.mp hwhole).2 hstop
    rw [digitsAndPlaces?, htake, hdrop]
    cases fraction with
    | nil => simp [pointed, hwhole]
    | cons c cs =>
      have hdigits : isDigits (c :: cs) = true := isDigits_iff.mpr ⟨by simp, hfraction⟩
      simp [pointed, hwhole, hdigits]

/-- Digits come first where no minus sign does. -/
theorem rational?_of_head {cs : List Char} (h : cs.head? ≠ some '-') : rational? cs =
    (digitsAndPlaces? cs).map fun (n, places) => mkRat n (Nat.pow 10 places) := by
  unfold rational?
  split
  · exact absurd rfl h
  · rfl

end Text

namespace Numeral

/-! ### Exact numerals -/

/-- The type letters that leave the digits as they are: none, the one for decimals and the one for
integers of 64 bits. -/
def exactSuffixes : List (List Char) := [[], ['M'], ['m'], ['L'], ['l']]

/-- A numeral without exponent, so that its digits say exactly what it is. -/
structure IsExact (n : Numeral) : Prop where
  sign : n.sign = [] ∨ n.sign = ['-']
  whole : Text.isDigits n.whole = true
  fraction : ∀ c ∈ n.fraction, c.isDigit = true
  exponentMark : n.exponentMark = []
  exponent : n.exponent = []
  suffix : n.suffix ∈ exactSuffixes

/-- The number that the digits of a numeral denote. -/
def rational (n : Numeral) : Rat :=
  let v : Int := Text.digitsValue (n.whole ++ n.fraction)
  mkRat (if n.sign.isEmpty then v else -v) (Nat.pow 10 n.fraction.length)

theorem rational_of_fraction_nil {n : Numeral} (h : n.fraction = []) :
    n.rational = mkRat n.integerValue 1 := by
  rw [rational, integerValue, h, List.append_nil]
  rfl

/-- A text that denotes a number is the body of a numeral with any of the letters. -/
theorem exists_isExact {cs suffix : List Char} {q : Rat} (h : Text.rational? cs = some q)
    (hsuffix : suffix ∈ exactSuffixes) :
    ∃ n : Numeral, n.IsExact ∧ n.body = cs ∧ n.suffix = suffix ∧ n.rational = q := by
  unfold Text.rational? at h
  split at h
  · obtain ⟨⟨v, places⟩, hdigits, rfl⟩ := Option.map_eq_some_iff.mp h
    obtain ⟨whole, fraction, hwhole, hfraction, rfl, rfl, rfl⟩ :=
      Text.digitsAndPlaces?_eq_some_iff.mp hdigits
    exact ⟨⟨['-'], whole, fraction, [], [], suffix⟩,
      ⟨.inr rfl, hwhole, hfraction, rfl, rfl, hsuffix⟩, by simp [body, Text.pointed], rfl, rfl⟩
  · obtain ⟨⟨v, places⟩, hdigits, rfl⟩ := Option.map_eq_some_iff.mp h
    obtain ⟨whole, fraction, hwhole, hfraction, rfl, rfl, rfl⟩ :=
      Text.digitsAndPlaces?_eq_some_iff.mp hdigits
    exact ⟨⟨[], whole, fraction, [], [], suffix⟩, ⟨.inl rfl, hwhole, hfraction, rfl, rfl, hsuffix⟩,
      by simp [body, Text.pointed], rfl, rfl⟩

namespace IsExact

variable {n : Numeral}

theorem body_eq (h : n.IsExact) : n.body = n.sign ++ (n.whole ++ Text.pointed n.fraction) := by
  rw [body, h.exponentMark, h.exponent, List.append_nil, List.append_nil, List.append_assoc]
  rfl

theorem chars_eq (h : n.IsExact) :
    n.chars = n.sign ++ (n.whole ++ (Text.pointed n.fraction ++ n.suffix)) := by
  rw [chars, h.body_eq, List.append_assoc, List.append_assoc]

/-- The whole part starts with a digit, whatever stands behind it. -/
theorem exists_digit (h : n.IsExact) (rest : List Char) :
    ∃ d ds, n.whole ++ rest = d :: ds ∧ d.isDigit = true := by
  obtain ⟨hne, hall⟩ := Text.isDigits_iff.mp h.whole
  obtain ⟨d, ds, hwhole⟩ := List.exists_cons_of_ne_nil hne
  exact ⟨d, ds ++ rest, by rw [hwhole, List.cons_append], hall d (hwhole ▸ List.mem_cons_self)⟩

/-- No minus sign comes before the digits but that of the numeral. -/
theorem head_ne_minus (h : n.IsExact) (rest : List Char) : (n.whole ++ rest).head? ≠ some '-' := by
  obtain ⟨d, ds, hrest, hd⟩ := h.exists_digit rest
  rw [hrest]
  rintro ⟨⟩
  exact absurd hd (by decide)

/-- The body of a numeral denotes the number of its digits. -/
theorem rational?_body (h : n.IsExact) : Text.rational? n.body = some n.rational := by
  have hdigits : Text.digitsAndPlaces? (n.whole ++ Text.pointed n.fraction) =
      some (Text.digitsValue (n.whole ++ n.fraction), n.fraction.length) :=
    Text.digitsAndPlaces?_eq_some_iff.mpr ⟨_, _, h.whole, h.fraction, rfl, rfl, rfl⟩
  rw [h.body_eq, rational]
  rcases h.sign with hsign | hsign
  · rw [hsign, List.nil_append, Text.rational?_of_head (h.head_ne_minus _), hdigits]
    rfl
  · rw [hsign, List.singleton_append, Text.rational?, hdigits]
    rfl

/-! ### The scan of an exact numeral -/

/-- The letter is no digit, no point and no mark of an exponent, so no part before it runs into
it. -/
theorem head_suffix (h : n.IsExact) :
    ∀ c ∈ n.suffix.head?, c.isDigit = false ∧ c ≠ '.' ∧ ¬(c = 'e' ∨ c = 'E') := by
  have hsuffix := h.suffix
  simp only [exactSuffixes, List.mem_cons, List.not_mem_nil, or_false] at hsuffix
  intro c hc
  rcases hsuffix with hnone | hletter | hletter | hletter | hletter
  · rw [hnone] at hc
    cases hc
  all_goals
    rw [hletter] at hc
    cases hc
    decide

theorem takeSign (h : n.IsExact) (rest : List Char) :
    Numeral.takeSign (n.sign ++ (n.whole ++ rest)) = (n.sign, n.whole ++ rest) := by
  rcases h.sign with hsign | hsign
  · have hhead := h.head_ne_minus rest
    rw [hsign, List.nil_append]
    unfold Numeral.takeSign
    split
    · next heq => exact absurd (heq ▸ rfl) hhead
    · rfl
  · rw [hsign]
    rfl

theorem takeFraction (h : n.IsExact) :
    Numeral.takeFraction (Text.pointed n.fraction ++ n.suffix) = (n.fraction, n.suffix) := by
  by_cases hfraction : n.fraction = []
  · rw [hfraction]
    refine takeFraction_of_head fun ds hds => ?_
    have hhead : '.' ∈ n.suffix.head? := by
      rw [show n.suffix = '.' :: ds from hds]
      rfl
    exact absurd rfl (h.head_suffix '.' hhead).2.1
  · obtain ⟨htake, hdrop⟩ :=
      Text.takeWhile_append_stop h.fraction fun c hc => (h.head_suffix c hc).1
    rw [Text.pointed_of_ne_nil hfraction, List.cons_append, Numeral.takeFraction, htake, hdrop,
      if_neg (by simpa using hfraction)]

/-- The scan takes exactly the parts that the numeral is written with. -/
theorem scan_chars (h : n.IsExact) : scan n.chars = (n, []) := by
  have hletters : ∀ s ∈ exactSuffixes, takeSuffix s = (s, []) := by decide
  have hstop := @Text.head_pointed_append n.fraction n.suffix fun c hc => (h.head_suffix c hc).1
  obtain ⟨htake, hdrop⟩ := Text.takeWhile_append_stop (Text.isDigits_iff.mp h.whole).2 hstop
  have hparts : n = ⟨n.sign, n.whole, n.fraction, [], [], n.suffix⟩ := by
    obtain ⟨sign, whole, fraction, mark, exponent, suffix⟩ := n
    cases h.exponentMark
    cases h.exponent
    rfl
  rw [h.chars_eq, hparts]
  exact scan_of_parts (h.takeSign _) htake hdrop h.takeFraction
    (takeExponent_of_head fun c hc => (h.head_suffix c hc).2.2) (hletters n.suffix h.suffix)

/-! ### The literal of an exact numeral -/

/-- A decimal keeps the text of the numeral. -/
theorem rational?_decimal (h : n.IsExact) :
    Text.rational? n.decimal.text.toList = some n.rational := by
  have htext : n.decimal.text.toList = n.body := String.toList_ofList
  rw [htext, h.rational?_body]

end IsExact

end Numeral

/-- A text that denotes an integer is the body of a numeral without fraction. -/
theorem Text.Denotes.exists_isExact {cs suffix : List Char} {n : Int} (h : Denotes cs n)
    (hsuffix : suffix ∈ Numeral.exactSuffixes) :
    ∃ m : Numeral, m.IsExact ∧ m.body = cs ∧ m.suffix = suffix ∧ m.fraction = [] ∧
      m.integerValue = n := by
  cases h with
  | digits hds =>
    exact ⟨⟨[], cs, [], [], [], suffix⟩,
      ⟨.inl rfl, hds, by simp, rfl, rfl, hsuffix⟩, by simp [Numeral.body], rfl, rfl, rfl⟩
  | @minus ds hds =>
    exact ⟨⟨['-'], ds, [], [], [], suffix⟩,
      ⟨.inr rfl, hds, by simp, rfl, rfl, hsuffix⟩, by simp [Numeral.body], rfl, rfl, rfl⟩

/-- It denotes the integer as a rational number too. -/
theorem Text.Denotes.rational?_eq {cs : List Char} {n : Int} (h : Denotes cs n) :
    rational? cs = some (mkRat n 1) := by
  obtain ⟨m, hm, rfl, _, hfraction, rfl⟩ :=
    h.exists_isExact (by decide : [] ∈ Numeral.exactSuffixes)
  rw [hm.rational?_body, Numeral.rational_of_fraction_nil hfraction]

/-- An integer literal denotes the numeral that has no fraction. -/
theorem Numeral.rational?_integer {n : Numeral} (hfraction : n.fraction = []) {l : Literal}
    (hl : l.value = .integer n.integerValue) : Text.rational? l.text.toList = some n.rational := by
  have htext : l.text = Text.integerText n.integerValue := by
    rw [Literal.text, hl]
    rfl
  rw [htext, (Text.denotes_integerText _).rational?_eq, rational_of_fraction_nil hfraction]

namespace Numeral.IsExact

variable {n : Numeral}

theorem whole_not_isEmpty (h : n.IsExact) : ¬ n.whole.isEmpty = true := by
  simpa using (Text.isDigits_iff.mp h.whole).1

theorem literal?_of_decimalLetter (h : n.IsExact) (hsuffix : n.suffix = ['M'] ∨ n.suffix = ['m']) :
    n.literal? = some n.decimal := by
  rw [literal?, if_neg h.whole_not_isEmpty, h.exponent]
  rcases hsuffix with hsuffix | hsuffix
  · rw [hsuffix]
    rfl
  · rw [hsuffix]
    rfl

theorem literal?_of_int64Letter (h : n.IsExact) (hfraction : n.fraction = [])
    (hsuffix : n.suffix = ['L'] ∨ n.suffix = ['l']) :
    n.literal? = n.int64?.map fun v => ⟨.int64, .integer v⟩ := by
  rw [literal?, if_neg h.whole_not_isEmpty, h.exponent, hfraction]
  rcases hsuffix with hsuffix | hsuffix
  · rw [hsuffix]
    rfl
  · rw [hsuffix]
    rfl

/-- Without a letter, only an integer that 64 bits hold is no decimal. -/
theorem literal?_of_no_letter (h : n.IsExact) (hsuffix : n.suffix = []) :
    n.literal? = some
      (if n.fraction = [] then (n.int64?.map Literal.integer).getD n.decimal else n.decimal) := by
  rw [literal?, if_neg h.whole_not_isEmpty, h.exponent, hsuffix]
  cases n.fraction with
  | nil => cases n.int64? <;> rfl
  | cons c cs => rfl

/-- Without a letter and as a decimal, every exact numeral has a literal that denotes it. -/
theorem exists_literal (h : n.IsExact) (hsuffix : n.suffix ∈ [[], ['M'], ['m']]) :
    ∃ l, n.literal? = some l ∧ Text.rational? l.text.toList = some n.rational := by
  simp only [List.mem_cons, List.not_mem_nil, or_false] at hsuffix
  rcases hsuffix with hnone | hletter
  · refine ⟨_, h.literal?_of_no_letter hnone, ?_⟩
    split
    · next hfraction =>
      rw [int64?]
      split
      · exact rational?_integer hfraction rfl
      · exact h.rational?_decimal
    · exact h.rational?_decimal
  · exact ⟨_, h.literal?_of_decimalLetter hletter, h.rational?_decimal⟩

end Numeral.IsExact

/-! ### Exact numerals as tokens -/

/-- An exact numeral on its own is one piece. -/
theorem Piece.first_exact {n : Numeral} (h : n.IsExact) {c : Char} {cs : List Char}
    (hchars : n.chars = c :: cs) :
    Text.isBlank c = false ∧ Piece.first c cs = ⟨n.literal?.map .literal, cs.length⟩ := by
  have hnumeral : Piece.numeral c cs = ⟨n.literal?.map .literal, cs.length⟩ := by
    have hscan := h.scan_chars
    rw [hchars] at hscan
    simp [Piece.numeral, hscan, hchars]
  rw [← hnumeral]
  obtain ⟨d, ds, hdigits, hd⟩ := h.exists_digit (Text.pointed n.fraction ++ n.suffix)
  rw [h.chars_eq, hdigits] at hchars
  rcases h.sign with hsign | hsign
  · rw [hsign] at hchars
    cases hchars
    exact ⟨Text.isBlank_of_isDigit hd, first_of_isDigit hd _⟩
  · rw [hsign] at hchars
    cases hchars
    exact ⟨by decide, if_pos hd⟩

/-- An exact numeral on its own is the token of its literal, or no token if it has none. -/
theorem tokenize_chars {n : Numeral} (h : n.IsExact) {text : String}
    (htext : text.toList = n.chars) :
    tokenize text = n.literal?.elim (.error ⟨0, text⟩) fun l => .ok [⟨.literal l, 0, text⟩] := by
  have hne : n.chars ≠ [] := by
    obtain ⟨d, ds, hdigits, _⟩ := h.exists_digit (Text.pointed n.fraction ++ n.suffix)
    simp [h.chars_eq, hdigits]
  obtain ⟨c, cs, hchars⟩ := List.exists_cons_of_ne_nil hne
  obtain ⟨hblank, hfirst⟩ := Piece.first_exact h hchars
  have hall : String.ofList (c :: cs.take cs.length) = text := by
    rw [List.take_length, ← hchars, ← htext, String.ofList_toList]
  rw [tokenize, htext, hchars]
  cases hliteral : n.literal? with
  | none =>
    rw [hliteral] at hfirst
    rw [tokensFrom, if_neg (by simp [hblank])]
    simp only [hfirst, Option.map_none, LexicalError.within_take, hall]
    rfl
  | some l =>
    rw [hliteral] at hfirst
    rw [tokensFrom_of_first hblank hfirst (by rw [List.drop_length, tokensFrom_nil]), hall]
    rfl

end EntityQuery
