import EntityQuery.Calendar.Reader
import EntityQuery.Proofs.Calendar.DayNumber
import EntityQuery.Proofs.Literal.Scanning

/-!
# Texts of date-times with an offset

A date-time with an offset is written as numbers of fixed widths with marks between them, a fraction
of the second that may be absent, and the offset. Main result: a text is read exactly if it is
written so, and it is read as the date-time and the offset that it writes.
-/

namespace EntityQuery

namespace Text

/-! ### Numbers of a fixed width -/

/-- The digits of a number, as many as given. -/
structure WritesNumber (width : Nat) (ds : List Char) (n : Nat) : Prop where
  length_eq : ds.length = width
  isDigit : ∀ c ∈ ds, c.isDigit = true
  value_eq : digitsValue ds = n

theorem digitsValue_append (as bs : List Char) :
    digitsValue (as ++ bs) = digitsValue as * Nat.pow 10 bs.length + digitsValue bs := by
  rw [digitsValue, Nat.ofDigitChars_append, Nat.ofDigitChars_eq_ofDigitChars_zero, Nat.mul_comm]
  rfl

theorem pow_ten_pos (n : Nat) : 0 < Nat.pow 10 n := Nat.pow_pos (by decide)

theorem digitsValue_lt {ds : List Char} (h : ∀ c ∈ ds, c.isDigit = true) :
    digitsValue ds < Nat.pow 10 ds.length := by
  induction ds with
  | nil => decide
  | cons c ds ih =>
    have hrest := ih fun d hd => h d (List.mem_cons_of_mem _ hd)
    obtain ⟨hlow, hhigh⟩ := isDigit_iff.mp (h c List.mem_cons_self)
    have hvalue : digitsValue (c :: ds) = digitsValue [c] * Nat.pow 10 ds.length + digitsValue ds :=
      digitsValue_append [c] ds
    have hdigit : digitsValue [c] = c.toNat - 48 := by
      simp [digitsValue, Nat.ofDigitChars_cons]
    have hmul : (c.toNat - 48) * Nat.pow 10 ds.length ≤ 9 * Nat.pow 10 ds.length :=
      Nat.mul_le_mul_right _ (by omega)
    have hpow : Nat.pow 10 (c :: ds).length = Nat.pow 10 ds.length * 10 := rfl
    rw [hvalue, hdigit, hpow]
    omega

/-- A number that is not too large for a width is written in that width. -/
theorem writesNumber_paddedText {width n : Nat} (hwidth : 0 < width) (h : n < Nat.pow 10 width) :
    WritesNumber width (paddedText width n).toList n := by
  have hlength : n.repr.length ≤ width := (Nat.length_repr_le_iff hwidth).mpr h
  refine ⟨?_, fun c hc => isDigit_of_mem_paddedText hc, ?_⟩
  · simp only [paddedText, String.toList_append, String.toList_ofList, List.length_append,
      List.length_replicate, String.length_toList]
    omega
  · have hzeros (k : Nat) : digitsValue (List.replicate k '0') = 0 := by simp [digitsValue]
    rw [paddedText, String.toList_append, String.toList_ofList, digitsValue_append, hzeros,
      Nat.zero_mul, Nat.zero_add, digitsValue_repr]

end Text

namespace Calendar

open Text (WritesNumber)

theorem readNumber_eq_some_iff {width n : Nat} {cs rest : List Char} :
    readNumber width width cs = some (n, rest) ↔
      ∃ ds, cs = ds ++ rest ∧ WritesNumber width ds n := by
  simp only [readNumber]
  constructor
  · intro h
    have hprefix := List.takeWhile_prefix Char.isDigit (l := cs.take width)
    split at h
    · cases h
    · next hlength =>
      have hle : (cs.take width).length ≤ width := List.length_take_le _ _
      have hall := hprefix.eq_of_length_le (by omega)
      rw [hall] at h hlength
      cases h
      have hwidth : (cs.take width).length = width := by omega
      refine ⟨cs.take width, ?_, hwidth, ?_, rfl⟩
      · rw [hwidth, List.take_append_drop]
      · exact fun c hc => List.all_eq_true.mp List.all_takeWhile c (hall ▸ hc)
  · rintro ⟨ds, rfl, hlength, hdigits, hvalue⟩
    have hds : ds.takeWhile Char.isDigit = ds := by
      simpa using @List.takeWhile_append_of_pos Char Char.isDigit ds [] hdigits
    rw [List.take_left' hlength, hds, if_neg (by omega), List.drop_left, hvalue]

theorem readChar_eq_some_iff {c : Char} {cs rest : List Char} :
    readChar c cs = some rest ↔ cs = c :: rest := by
  cases cs with
  | nil => simp [readChar]
  | cons d ds => simp [readChar]

/-- What comes after a number is read from what stands behind its digits. -/
theorem bind_readNumber_eq_some_iff {α : Type} {width : Nat} {cs : List Char}
    {next : Nat × List Char → Option α} {a : α} : (readNumber width width cs).bind next = some a ↔
      ∃ ds n rest, cs = ds ++ rest ∧ WritesNumber width ds n ∧ next (n, rest) = some a := by
  rw [Option.bind_eq_some_iff]
  constructor
  · rintro ⟨⟨n, rest⟩, hread, hnext⟩
    obtain ⟨ds, hcs, hwrites⟩ := readNumber_eq_some_iff.mp hread
    exact ⟨ds, n, rest, hcs, hwrites, hnext⟩
  · rintro ⟨ds, n, rest, hcs, hwrites, hnext⟩
    exact ⟨(n, rest), readNumber_eq_some_iff.mpr ⟨ds, hcs, hwrites⟩, hnext⟩

/-- The same for a number that a given character separates from what stands before it. -/
theorem bind_readChar_eq_some_iff {α : Type} {c : Char} {width : Nat} {cs : List Char}
    {next : Nat × List Char → Option α} {a : α} :
    ((readChar c cs).bind fun cs => (readNumber width width cs).bind next) = some a ↔
      ∃ ds n rest, cs = c :: (ds ++ rest) ∧ WritesNumber width ds n ∧ next (n, rest) = some a := by
  rw [Option.bind_eq_some_iff]
  constructor
  · rintro ⟨after, hread, hnext⟩
    obtain ⟨ds, n, rest, rfl, hwrites, hnext⟩ := bind_readNumber_eq_some_iff.mp hnext
    exact ⟨ds, n, rest, readChar_eq_some_iff.mp hread, hwrites, hnext⟩
  · rintro ⟨ds, n, rest, rfl, hwrites, hnext⟩
    exact ⟨ds ++ rest, readChar_eq_some_iff.mpr rfl,
      bind_readNumber_eq_some_iff.mpr ⟨ds, n, rest, rfl, hwrites, hnext⟩⟩

theorem readTimeMark_eq_some_iff {cs rest : List Char} :
    readTimeMark cs = some rest ↔
      ∃ mark, (mark = 'T' ∨ mark = 't' ∨ mark = ' ') ∧ cs = mark :: rest := by
  cases cs with
  | nil => simp [readTimeMark]
  | cons d ds =>
    simp only [readTimeMark, Option.ite_none_right_eq_some, Option.some.injEq, List.cons.injEq]
    constructor
    · rintro ⟨hmark, rfl⟩
      exact ⟨d, hmark, rfl, rfl⟩
    · rintro ⟨_, hmark, rfl, rfl⟩
      exact ⟨hmark, rfl⟩

/-! ### Fractions of a second -/

/-- A fraction in nanoseconds, without what is less than one of them. -/
inductive WritesFraction : List Char → Nat → Prop
  | absent : WritesFraction [] 0
  | digits {ds : List Char} (h : Text.isDigits ds = true) :
    WritesFraction ('.' :: ds) (Text.digitsValue ds * 1000000000 / Nat.pow 10 ds.length)

theorem nanoseconds_eq {ds : List Char} (h : ∀ c ∈ ds, c.isDigit = true) :
    nanoseconds ds = Text.digitsValue ds * 1000000000 / Nat.pow 10 ds.length := by
  rw [nanoseconds]
  by_cases hshort : ds.length ≤ 9
  · have hpow : 1000000000 = Nat.pow 10 (9 - ds.length) * Nat.pow 10 ds.length := by
      show 10 ^ 9 = 10 ^ (9 - ds.length) * 10 ^ ds.length
      rw [← Nat.pow_add, Nat.sub_add_cancel hshort]
    rw [List.take_of_length_le hshort, hpow, ← Nat.mul_assoc,
      Nat.mul_div_cancel _ (Text.pow_ten_pos _)]
  · -- the digits after the ninth are less than a nanosecond
    have hlong : ds.length = (ds.drop 9).length + 9 := by rw [List.length_drop]; omega
    have hvalue := Text.digitsValue_append (ds.take 9) (ds.drop 9)
    have hlt := @Text.digitsValue_lt (ds.drop 9) fun c hc => h c (List.mem_of_mem_drop hc)
    have hpow : Nat.pow 10 ds.length = Nat.pow 10 (ds.drop 9).length * 1000000000 := by
      rw [hlong]
      exact Nat.pow_add 10 _ 9
    have hzero : 9 - ds.length = 0 := by omega
    rw [List.take_append_drop] at hvalue
    rw [hzero, hpow, Nat.mul_div_mul_right _ _ (by decide), hvalue, Nat.add_comm,
      Nat.add_mul_div_right _ _ (Text.pow_ten_pos _), Nat.div_eq_of_lt hlt, Nat.zero_add]
    exact Nat.mul_one _

theorem WritesFraction.lt {cs : List Char} {n : Nat} (h : WritesFraction cs n) :
    n < 1000000000 := by
  cases h with
  | absent => decide
  | digits h =>
    have hlt := Text.digitsValue_lt (Text.isDigits_iff.mp h).2
    rw [Nat.div_lt_iff_lt_mul (Text.pow_ten_pos _), Nat.mul_comm]
    exact (Nat.mul_lt_mul_left (by decide)).mpr hlt

/-- What may follow a fraction: no digit, and no point where there is none. -/
def EndsFraction (cs : List Char) : Prop := ∀ c ∈ cs.head?, c.isDigit = false ∧ c ≠ '.'

theorem exists_of_readFraction {cs rest : List Char} {n : Nat}
    (h : readFraction cs = some (n, rest)) :
    ∃ fraction, cs = fraction ++ rest ∧ WritesFraction fraction n := by
  unfold readFraction at h
  split at h
  · next cs =>
    simp only at h
    split at h
    · cases h
    · next hne =>
      have hdigits : ∀ c ∈ cs.takeWhile Char.isDigit, c.isDigit = true :=
        List.all_eq_true.mp List.all_takeWhile
      cases h
      refine ⟨'.' :: cs.takeWhile Char.isDigit, ?_, ?_⟩
      · rw [List.cons_append, List.takeWhile_append_dropWhile]
      · rw [nanoseconds_eq hdigits]
        exact .digits (Text.isDigits_iff.mpr ⟨by simpa using hne, hdigits⟩)
  · cases h
    exact ⟨[], rfl, .absent⟩

theorem readFraction_append {fraction rest : List Char} {n : Nat} (h : WritesFraction fraction n)
    (hrest : EndsFraction rest) : readFraction (fraction ++ rest) = some (n, rest) := by
  cases h with
  | absent =>
    rw [List.nil_append]
    unfold readFraction
    split
    · next cs => exact absurd rfl (hrest '.' rfl).2
    · rfl
  | @digits ds h =>
    obtain ⟨hne, hdigits⟩ := Text.isDigits_iff.mp h
    obtain ⟨htake, hdrop⟩ := Text.takeWhile_append_stop hdigits fun c hc => (hrest c hc).1
    have hisEmpty : ¬ ds.isEmpty = true := by simpa using hne
    rw [List.cons_append, readFraction]
    simp only [htake, hdrop, if_neg hisEmpty, nanoseconds_eq hdigits]

/-! ### Offsets -/

/-- An offset in minutes, of less than a day. -/
inductive WritesOffset : List Char → Int → Prop
  | none {c : Char} (h : c = 'Z' ∨ c = 'z') : WritesOffset [c] 0
  | ahead {hs ms : List Char} {hours minutes : Nat} (hhours : WritesNumber 2 hs hours)
      (hminutes : WritesNumber 2 ms minutes) (hlt : hours ≤ 23 ∧ minutes ≤ 59) :
    WritesOffset ('+' :: (hs ++ ':' :: ms)) (hours * 60 + minutes)
  | behind {sign : Char} {hs ms : List Char} {hours minutes : Nat} (hsign : sign = '-' ∨ sign = '−')
      (hhours : WritesNumber 2 hs hours) (hminutes : WritesNumber 2 ms minutes)
      (hlt : hours ≤ 23 ∧ minutes ≤ 59) :
    WritesOffset (sign :: (hs ++ ':' :: ms)) (-(hours * 60 + minutes))

theorem WritesOffset.bounds {cs : List Char} {offset : Int} (h : WritesOffset cs offset) :
    -1440 < offset ∧ offset < 1440 := by
  cases h with
  | none => decide
  | ahead _ _ hlt => omega
  | behind _ _ _ hlt => omega

theorem WritesOffset.endsFraction {cs : List Char} {offset : Int} (h : WritesOffset cs offset) :
    EndsFraction cs := by
  intro c hc
  cases h with
  | none h =>
    cases hc
    rcases h with rfl | rfl <;> decide
  | ahead =>
    cases hc
    decide
  | behind h =>
    cases hc
    rcases h with rfl | rfl <;> decide

/-- The offset of a sign, hours and minutes. -/
theorem readOffset_signed {sign : Char} {hs ms : List Char} {hours minutes : Nat}
    (hhours : WritesNumber 2 hs hours) (hminutes : WritesNumber 2 ms minutes)
    (hlt : hours ≤ 23 ∧ minutes ≤ 59) :
    readOffset (sign :: (hs ++ ':' :: ms)) =
      if sign = '+' then some (hours * 60 + minutes : Int)
      else if sign = '-' ∨ sign = '−' then some (-(hours * 60 + minutes)) else none := by
  have hreadHours : readNumber 2 2 (hs ++ ':' :: ms) = some (hours, ':' :: ms) :=
    readNumber_eq_some_iff.mpr ⟨hs, rfl, hhours⟩
  have hreadMinutes : readNumber 2 2 ms = some (minutes, []) :=
    readNumber_eq_some_iff.mpr ⟨ms, (List.append_nil ms).symm, hminutes⟩
  have hreadChar : readChar ':' (':' :: ms) = some ms := readChar_eq_some_iff.mpr rfl
  unfold readOffset
  split
  · next heq => simp at heq
  · next heq => simp at heq
  · next heq =>
    cases heq
    simp [hreadHours, hreadChar, hreadMinutes, hlt]
  · next heq => cases heq

theorem readOffset_eq_some_iff {cs : List Char} {offset : Int} :
    readOffset cs = some offset ↔ WritesOffset cs offset := by
  constructor
  · intro h
    unfold readOffset at h
    split at h
    · cases h
      exact .none (.inl rfl)
    · cases h
      exact .none (.inr rfl)
    · next sign cs _ _ =>
      obtain ⟨hs, hours, _, rfl, hhours, hafterHours⟩ := bind_readNumber_eq_some_iff.mp h
      obtain ⟨ms, minutes, rest, rfl, hminutes, htotal⟩ := bind_readChar_eq_some_iff.mp hafterHours
      simp only at htotal
      split at htotal
      · next hlt =>
        simp only [Bool.and_eq_true, List.isEmpty_iff, decide_eq_true_eq] at hlt
        obtain ⟨⟨rfl, hhours23⟩, hminutes59⟩ := hlt
        rw [List.append_nil]
        split at htotal
        · next hsign =>
          cases htotal
          rw [hsign]
          exact .ahead hhours hminutes ⟨hhours23, hminutes59⟩
        · split at htotal
          · next hsign =>
            cases htotal
            exact .behind hsign hhours hminutes ⟨hhours23, hminutes59⟩
          · cases htotal
      · cases htotal
    · cases h
  · intro h
    cases h with
    | none h => rcases h with rfl | rfl <;> rfl
    | ahead hhours hminutes hlt => exact readOffset_signed hhours hminutes hlt
    | behind hsign hhours hminutes hlt =>
      rw [readOffset_signed hhours hminutes hlt, if_neg ?_, if_pos hsign]
      rcases hsign with rfl | rfl <;> decide

/-! ### Date-times -/

/-- The text of a date-time with an offset: a year of four digits, two digits for each other number,
a letter or a space before the time, a second of at most 60. -/
inductive WritesOffsetDateTime : List Char → OffsetDateTime → Prop
  | parts {ys mos ds hs mis ss fraction zone : List Char}
      {year month day hour minute second nanosecond : Nat} {mark : Char} {offset : Int}
      (hyear : WritesNumber 4 ys year) (hmonth : WritesNumber 2 mos month)
      (hday : WritesNumber 2 ds day) (hmark : mark = 'T' ∨ mark = 't' ∨ mark = ' ')
      (hhour : WritesNumber 2 hs hour) (hminute : WritesNumber 2 mis minute)
      (hsecond : WritesNumber 2 ss second) (hfraction : WritesFraction fraction nanosecond)
      (hoffset : WritesOffset zone offset)
      (hdate : Date.IsValid ⟨year, month, day⟩) (htime : hour ≤ 23 ∧ minute ≤ 59 ∧ second ≤ 60) :
    WritesOffsetDateTime (ys ++ '-' :: (mos ++ '-' :: (ds ++ mark :: (hs ++ ':' :: (mis ++ ':' ::
      (ss ++ (fraction ++ zone)))))))
      ⟨⟨⟨year, month, day⟩, ⟨hour, minute, second, nanosecond⟩⟩, offset⟩

theorem ofParts?_eq_some_iff {year month day : Nat} {ys : List Char}
    (hyear : WritesNumber 4 ys year) {d : Date} : Date.ofParts? year month day = some d ↔
      Date.IsValid ⟨year, month, day⟩ ∧ d = ⟨year, month, day⟩ := by
  have hlt := Text.digitsValue_lt hyear.isDigit
  rw [hyear.length_eq, hyear.value_eq] at hlt
  have hlt : year < 10000 := hlt
  unfold Date.ofParts? Date.minYear Date.maxYear
  split
  · next h =>
    constructor
    · rintro ⟨⟩
      exact ⟨⟨h.2.2.1, h.2.2.2.1, h.2.2.2.2.1, h.2.2.2.2.2⟩, rfl⟩
    · rintro ⟨_, rfl⟩
      rfl
  · next h =>
    constructor
    · intro hnone
      cases hnone
    · rintro ⟨⟨hmonth, hmonth12, hday, hdayLe⟩, _⟩
      exact absurd ⟨by omega, by omega, hmonth, hmonth12, hday, hdayLe⟩ h

theorem timeOfParts?_eq_some_iff {hour minute second nanosecond : Nat} {t : TimeOfDay} :
    timeOfParts? hour minute second nanosecond = some t ↔
      (hour ≤ 23 ∧ minute ≤ 59 ∧ second ≤ 60) ∧ t = ⟨hour, minute, second, nanosecond⟩ := by
  simp only [timeOfParts?, Option.ite_none_right_eq_some, Option.some.injEq, @eq_comm _ t]

/-- A text is read exactly if it is written so, as what it writes. -/
theorem readOffsetDateTime?_eq_some_iff {cs : List Char} {t : OffsetDateTime} :
    readOffsetDateTime? cs = some t ↔ WritesOffsetDateTime cs t := by
  constructor
  · intro h
    obtain ⟨ys, year, _, rfl, hyear, hafterYear⟩ := bind_readNumber_eq_some_iff.mp h
    obtain ⟨mos, month, _, rfl, hmonth, hafterMonth⟩ := bind_readChar_eq_some_iff.mp hafterYear
    obtain ⟨ds, day, _, rfl, hday, hafterDay⟩ := bind_readChar_eq_some_iff.mp hafterMonth
    obtain ⟨_, hreadMark, hafterMark⟩ := Option.bind_eq_some_iff.mp hafterDay
    obtain ⟨mark, hmark, rfl⟩ := readTimeMark_eq_some_iff.mp hreadMark
    obtain ⟨hs, hour, _, rfl, hhour, hafterHour⟩ := bind_readNumber_eq_some_iff.mp hafterMark
    obtain ⟨mis, minute, _, rfl, hminute, hafterMinute⟩ := bind_readChar_eq_some_iff.mp hafterHour
    obtain ⟨ss, second, _, rfl, hsecond, hafterSecond⟩ := bind_readChar_eq_some_iff.mp hafterMinute
    obtain ⟨⟨nanosecond, zone⟩, hreadFraction, hafterFraction⟩ :=
      Option.bind_eq_some_iff.mp hafterSecond
    obtain ⟨fraction, rfl, hfraction⟩ := exists_of_readFraction hreadFraction
    obtain ⟨offset, hoffset, hafterOffset⟩ := Option.bind_eq_some_iff.mp hafterFraction
    obtain ⟨date, hdate, hafterDate⟩ := Option.bind_eq_some_iff.mp hafterOffset
    obtain ⟨hvalid, rfl⟩ := (ofParts?_eq_some_iff hyear).mp hdate
    obtain ⟨time, htime, hresult⟩ := Option.bind_eq_some_iff.mp hafterDate
    obtain ⟨hbounds, rfl⟩ := timeOfParts?_eq_some_iff.mp htime
    cases hresult
    exact .parts hyear hmonth hday hmark hhour hminute hsecond hfraction
      (readOffset_eq_some_iff.mp hoffset)
      hvalid hbounds
  · rintro ⟨hyear, hmonth, hday, hmark, hhour, hminute, hsecond, hfraction, hoffset, hdate, htime⟩
    refine bind_readNumber_eq_some_iff.mpr ⟨_, _, _, rfl, hyear, ?_⟩
    refine bind_readChar_eq_some_iff.mpr ⟨_, _, _, rfl, hmonth, ?_⟩
    refine bind_readChar_eq_some_iff.mpr ⟨_, _, _, rfl, hday, ?_⟩
    refine Option.bind_eq_some_iff.mpr ⟨_, readTimeMark_eq_some_iff.mpr ⟨_, hmark, rfl⟩, ?_⟩
    refine bind_readNumber_eq_some_iff.mpr ⟨_, _, _, rfl, hhour, ?_⟩
    refine bind_readChar_eq_some_iff.mpr ⟨_, _, _, rfl, hminute, ?_⟩
    refine bind_readChar_eq_some_iff.mpr ⟨_, _, _, rfl, hsecond, ?_⟩
    refine Option.bind_eq_some_iff.mpr ⟨_, readFraction_append hfraction hoffset.endsFraction, ?_⟩
    refine Option.bind_eq_some_iff.mpr ⟨_, readOffset_eq_some_iff.mpr hoffset, ?_⟩
    refine Option.bind_eq_some_iff.mpr ⟨_, (ofParts?_eq_some_iff hyear).mpr ⟨hdate, rfl⟩, ?_⟩
    exact Option.bind_eq_some_iff.mpr ⟨_, timeOfParts?_eq_some_iff.mpr ⟨htime, rfl⟩, rfl⟩

end Calendar

end EntityQuery
