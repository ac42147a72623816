import EntityQuery.Literal.Typed
import EntityQuery.Proofs.Number.NumberTexts
import EntityQuery.Proofs.Number.Rounding
import Mathlib.Data.List.TakeDrop

/-!
# Duration texts

A time of day is written as a duration: hours, minutes and seconds, each a number before its
designator. The strict grammar has digits only, with a fraction for the seconds. Main result: what
is read is wider by signs, exponents and bare points, narrower by the seconds that are rounded to
60, and the same otherwise.
-/

namespace EntityQuery

open Text (WritesNatural isDigits digitsValue digitsAndPlaces? isNumberChar)
open Binary64 (Scientific)

/-- The numbers of a duration text, each of which may be absent. -/
structure DurationText where
  hours : Option (List Char)
  minutes : Option (List Char)
  seconds : Option (List Char)
  deriving DecidableEq, Repr

namespace DurationText

/-! ### The texts -/

/-- A number before its designator. -/
def component (designator : Char) : Option (List Char) → List Char
  | none => []
  | some number => number ++ [designator]

/-- The numbers before their designators. -/
def body (d : DurationText) : List Char :=
  component 'H' d.hours ++ (component 'M' d.minutes ++ component 'S' d.seconds)

/-- The whole text. -/
def chars (d : DurationText) : List Char := 'P' :: 'T' :: d.body

/-- The numbers before the designators in a text, whatever they look like. -/
def divide? (cs : List Char) : Option DurationText := do
  let (hours, cs) ← TimeOfDay.splitDesignator 'H' cs
  let (minutes, cs) ← TimeOfDay.splitDesignator 'M' cs
  let (seconds, cs) ← TimeOfDay.splitDesignator 'S' cs
  if cs.isEmpty then some ⟨hours, minutes, seconds⟩ else none

/-- The time of day of the numbers. -/
def time? (d : DurationText) : Option TimeOfDay := do
  let hour ← TimeOfDay.readComponent d.hours
  let minute ← TimeOfDay.readComponent d.minutes
  let (second, nanosecond) ← TimeOfDay.readSeconds d.seconds
  if decide (hour ≤ 23) && decide (minute ≤ 59) then some ⟨hour, minute, second, nanosecond⟩
  else none

/-- A text can be divided before any of its numbers is read. -/
theorem ofDuration?_cons (cs : List Char) : TimeOfDay.ofDuration? ('P' :: 'T' :: cs) =
    if cs.isEmpty then none else (divide? cs).bind time? := by
  rw [TimeOfDay.ofDuration?]
  congr 1
  refine Option.ext fun t => ?_
  simp only [divide?, time?, Option.bind_eq_bind, Option.bind_eq_some_iff,
    Option.ite_none_right_eq_some, Option.some.injEq, Bool.and_eq_true]
  constructor
  · rintro ⟨hours, hH, hour, hhour, minutes, hM, minute, hminute, seconds, hS, second, hsecond,
      ⟨⟨hend, hle⟩, hle'⟩, rfl⟩
    exact ⟨_, ⟨hours, hH, minutes, hM, seconds, hS, hend, rfl⟩, hour, hhour, minute, hminute,
      second, hsecond, ⟨hle, hle'⟩, rfl⟩
  · rintro ⟨_, ⟨hours, hH, minutes, hM, seconds, hS, hend, rfl⟩, hour, hhour, minute, hminute,
      second, hsecond, ⟨hle, hle'⟩, rfl⟩
    exact ⟨hours, hH, hour, hhour, minutes, hM, minute, hminute, seconds, hS, second, hsecond,
      ⟨⟨hend, hle⟩, hle'⟩, rfl⟩

/-! ### Cutting at the designators -/

/-- Where a cut at a designator can have been made: behind a number without the designator or, where
there is no number, before a text without it. -/
def IsCut (designator : Char) (rest : List Char) : Option (List Char) → Prop
  | none => designator ∉ rest
  | some number => number ≠ [] ∧ designator ∉ number

theorem splitDesignator_append {designator : Char} {rest : List Char} {number : Option (List Char)}
    (h : IsCut designator rest number) :
    TimeOfDay.splitDesignator designator (component designator number ++ rest) =
      some (number, rest) := by
  rw [TimeOfDay.splitDesignator, List.span_eq_takeWhile_dropWhile]
  cases number with
  | none =>
    obtain ⟨htake, hdrop⟩ := @Text.takeWhile_append_stop (· != designator) rest []
      (fun c hc => by simpa using ne_of_mem_of_not_mem hc h) (by simp)
    rw [List.append_nil] at htake hdrop
    rw [component, List.nil_append, htake, hdrop]
  | some number =>
    obtain ⟨hne, hnot⟩ := h
    obtain ⟨htake, hdrop⟩ :=
      @Text.takeWhile_append_stop (· != designator) number (designator :: rest)
      (fun c hc => by simpa using ne_of_mem_of_not_mem hc hnot) (by simp)
    rw [component, List.append_assoc, List.singleton_append, htake, hdrop]
    cases number with
    | nil => exact absurd rfl hne
    | cons c cs => rfl

/-- A text is cut at the first designator. -/
theorem splitDesignator_eq_some_iff {designator : Char} {cs rest : List Char}
    {number : Option (List Char)} :
    TimeOfDay.splitDesignator designator cs = some (number, rest) ↔
      cs = component designator number ++ rest ∧ IsCut designator rest number := by
  constructor
  · intro h
    have hsplit := @List.takeWhile_append_dropWhile _ (· != designator) cs
    have hbefore : designator ∉ cs.takeWhile (· != designator) := fun hmem => by
      simpa using List.all_eq_true.mp List.all_takeWhile designator hmem
    have hhead := @Text.head_dropWhile (· != designator) cs
    rw [TimeOfDay.splitDesignator, List.span_eq_takeWhile_dropWhile] at h
    split at h
    · next hspan =>
      obtain ⟨rfl, hdrop⟩ := Prod.mk.injEq .. ▸ hspan
      cases h
      rw [hdrop, List.append_nil] at hsplit
      exact ⟨rfl, by rwa [hsplit] at hbefore⟩
    · cases h
    · next number c _ hne hspan =>
      obtain ⟨rfl, hdrop⟩ := Prod.mk.injEq .. ▸ hspan
      cases h
      rw [hdrop] at hsplit hhead
      have hc : c = designator := by simpa using hhead c rfl
      rw [hc] at hsplit
      exact ⟨by rw [component, List.append_assoc, List.singleton_append, hsplit], hne, hbefore⟩
  · rintro ⟨rfl, hcut⟩
    exact splitDesignator_append hcut

theorem body_of_divide? {cs : List Char} {d : DurationText} (h : divide? cs = some d) :
    d.body = cs := by
  simp only [divide?, Option.bind_eq_bind, Option.bind_eq_some_iff, Option.ite_none_right_eq_some,
    Option.some.injEq, List.isEmpty_iff] at h
  obtain ⟨⟨hours, cs₁⟩, hH, ⟨minutes, cs₂⟩, hM, ⟨seconds, cs₃⟩, hS, rfl, rfl⟩ := h
  obtain ⟨rfl, _⟩ := splitDesignator_eq_some_iff.mp hH
  obtain ⟨rfl, _⟩ := splitDesignator_eq_some_iff.mp hM
  obtain ⟨rfl, _⟩ := splitDesignator_eq_some_iff.mp hS
  rw [List.append_nil]
  rfl

/-- A number, if there is one, is written in the characters for numbers. -/
def IsNumeric (number : Option (List Char)) : Prop :=
  ∀ cs ∈ number, cs ≠ [] ∧ ∀ c ∈ cs, isNumberChar c = true

theorem IsNumeric.isCut {designator : Char} {rest : List Char} {number : Option (List Char)}
    (h : IsNumeric number) (hdesignator : isNumberChar designator = false)
    (hrest : designator ∉ rest) :
    IsCut designator rest number := by
  cases number with
  | none => exact hrest
  | some cs =>
    obtain ⟨hne, hall⟩ := h cs rfl
    exact ⟨hne, fun hmem => by simp [hall designator hmem] at hdesignator⟩

theorem IsNumeric.not_mem_component {designator other : Char} {number : Option (List Char)}
    (h : IsNumeric number) (hdesignator : isNumberChar designator = false)
    (hother : designator ≠ other) :
    designator ∉ component other number := by
  cases number with
  | none => simp [component]
  | some cs =>
    rw [component, List.mem_append, List.mem_singleton]
    rintro (hmem | rfl)
    · simp [(h cs rfl).2 designator hmem] at hdesignator
    · exact hother rfl

theorem isNumeric_of_writesNatural {number : Option (List Char)}
    (h : ∀ cs ∈ number, ∃ n, WritesNatural cs n) :
    IsNumeric number := by
  intro cs hcs
  obtain ⟨n, hwrites⟩ := h cs hcs
  exact ⟨hwrites.ne_nil, hwrites.isNumberChar⟩

theorem isNumeric_of_writes {number : Option (List Char)}
    (h : ∀ cs ∈ number, ∃ x : Scientific, x.Writes cs) :
    IsNumeric number := by
  intro cs hcs
  obtain ⟨x, hwrites⟩ := h cs hcs
  exact ⟨hwrites.ne_nil, hwrites.isNumberChar⟩

/-- The text has a number, and its numbers are written in the characters for numbers. -/
structure HasNumbers (d : DurationText) : Prop where
  present : d ≠ ⟨none, none, none⟩
  hours : IsNumeric d.hours
  minutes : IsNumeric d.minutes
  seconds : IsNumeric d.seconds

theorem body_eq_nil_iff {d : DurationText} : d.body = [] ↔ d = ⟨none, none, none⟩ := by
  obtain ⟨hours, minutes, seconds⟩ := d
  cases hours <;> cases minutes <;> cases seconds <;> simp [body, component]

theorem HasNumbers.divide?_body {d : DurationText} (h : d.HasNumbers) :
    divide? d.body = some d := by
  have hminute : 'M' ∉ component 'S' d.seconds :=
    h.seconds.not_mem_component (by decide) (by decide)
  have hhour : 'H' ∉ component 'M' d.minutes ++ component 'S' d.seconds := by
    rw [List.mem_append]
    exact not_or.mpr ⟨h.minutes.not_mem_component (by decide) (by decide),
      h.seconds.not_mem_component (by decide) (by decide)⟩
  have hsplit := @splitDesignator_append 'S' [] d.seconds (h.seconds.isCut (by decide) (by simp))
  rw [List.append_nil] at hsplit
  simp only [divide?, body, splitDesignator_append (h.hours.isCut (by decide) hhour),
    splitDesignator_append (h.minutes.isCut (by decide) hminute), hsplit, Option.bind_eq_bind,
    Option.bind_some]
  rfl

/-- A text of numbers is divided in one way only. -/
theorem HasNumbers.eq_of_chars_eq {d d' : DurationText} (h : d.HasNumbers) (h' : d'.HasNumbers)
    (heq : d.chars = d'.chars) : d = d' := by
  have hbody : d.body = d'.body := by simpa [chars] using heq
  have hdivide := h.divide?_body
  rw [hbody, h'.divide?_body] at hdivide
  exact (Option.some.inj hdivide).symm

theorem HasNumbers.ofDuration?_chars {d : DurationText} (h : d.HasNumbers) :
    TimeOfDay.ofDuration? d.chars = d.time? := by
  have hne : ¬ d.body.isEmpty = true := by
    rw [List.isEmpty_iff, body_eq_nil_iff]
    exact h.present
  rw [chars, ofDuration?_cons, if_neg hne, h.divide?_body, Option.bind_some]

/-- Only texts with a number are read. -/
theorem exists_of_ofDuration? {cs : List Char} {t : TimeOfDay}
    (h : TimeOfDay.ofDuration? cs = some t) :
    ∃ d : DurationText, d.chars = cs ∧ d ≠ ⟨none, none, none⟩ ∧ d.time? = some t := by
  unfold TimeOfDay.ofDuration? at h
  split at h
  · next rest =>
    change TimeOfDay.ofDuration? ('P' :: 'T' :: rest) = some t at h
    rw [ofDuration?_cons] at h
    split at h
    · cases h
    · next hne =>
      obtain ⟨d, hdivide, htime⟩ := Option.bind_eq_some_iff.mp h
      have hbody := body_of_divide? hdivide
      refine ⟨d, by rw [chars, hbody], ?_, htime⟩
      rw [← body_eq_nil_iff.ne, hbody]
      simpa using hne
  · cases h

/-! ### Reading the numbers -/

theorem readComponent_some_eq_some_iff {cs : List Char} {n : Nat} :
    TimeOfDay.readComponent (some cs) = some n ↔ WritesNatural cs n ∧ n ≤ Text.maxUInt32 := by
  rw [← Text.readBounded_eq_ok_iff, TimeOfDay.readComponent]
  cases Text.readBounded Text.maxUInt32 cs <;> simp [Except.toOption]

/-- A component is read exactly if it is absent or its number is written. -/
theorem readComponent_le_iff {bound : Nat} {number : Option (List Char)}
    (hbound : bound ≤ Text.maxUInt32) :
    (∃ n, TimeOfDay.readComponent number = some n ∧ n ≤ bound) ↔
      ∀ cs ∈ number, ∃ n, WritesNatural cs n ∧ n ≤ bound := by
  cases number with
  | none => simp [TimeOfDay.readComponent]
  | some cs =>
    simp only [readComponent_some_eq_some_iff, Option.mem_some_iff, forall_eq']
    constructor
    · rintro ⟨n, ⟨hwrites, _⟩, hle⟩
      exact ⟨n, hwrites, hle⟩
    · rintro ⟨n, hwrites, hle⟩
      exact ⟨n, ⟨hwrites, Nat.le_trans hle hbound⟩, hle⟩

/-- Digits are read as their value. -/
theorem readComponent_of_isDigits {number : Option (List Char)}
    (hdigits : ∀ cs ∈ number, isDigits cs = true)
    (hle : number.elim 0 digitsValue ≤ Text.maxUInt32) :
    TimeOfDay.readComponent number = some (number.elim 0 digitsValue) := by
  cases number with
  | none => rfl
  | some cs => exact readComponent_some_eq_some_iff.mpr ⟨.digits (hdigits cs rfl), hle⟩

/-- The second and the nanoseconds of a number that is not below zero and is below 60. -/
def secondOf? (x : Binary64) : Option (Nat × Nat) :=
  if (x.negative && x.significand != 0) || decide (60 ≤ x.whole) then none
  else
    let (n, d) := x.fraction
    let nanos := match Binary64.ofFraction? false (n * 1000000000) d with
      | some scaled => min scaled.whole 999999999
      | none => 0
    some (x.whole, nanos)

theorem readSeconds_some (cs : List Char) : TimeOfDay.readSeconds (some cs) =
    (Binary64.readScientific cs).bind fun x =>
      (Binary64.ofDecimal? x.negative x.digits x.exponent).bind secondOf? := by
  rw [← Option.bind_assoc]
  rfl

theorem secondOf?_isSome_iff {x : Binary64} :
    (secondOf? x).isSome = true ↔ x.whole < 60 ∧ (x.negative = true → x.significand = 0) := by
  rw [secondOf?]
  split
  · next h =>
    simp only [Bool.or_eq_true, Bool.and_eq_true, decide_eq_true_eq, bne_iff_ne] at h
    refine iff_of_false (by simp) fun ⟨hwhole, hzero⟩ => ?_
    rcases h with ⟨hnegative, hne⟩ | hle
    · exact hne (hzero hnegative)
    · omega
  · next h =>
    simp only [Bool.or_eq_true, Bool.and_eq_true, decide_eq_true_eq, bne_iff_ne, not_or, not_and,
      Decidable.not_not, Nat.not_le] at h
    exact iff_of_true Option.isSome_some ⟨h.2, h.1⟩

/-- A number without a fraction has no nanoseconds. -/
theorem secondOf?_of_whole {x : Binary64} (hnegative : x.negative = false) (hlt : x.whole < 60)
    (hfraction : x.fraction.1 = 0) : secondOf? x = some (x.whole, 0) := by
  have hrange : ¬ ((x.negative && x.significand != 0) || decide (60 ≤ x.whole)) = true := by
    simp [hnegative, hlt]
  have hnanos (d : Nat) : Binary64.ofFraction? false (0 * 1000000000) d =
      some (Binary64.zero false) := by
    rw [Nat.zero_mul]
    rfl
  obtain ⟨d, hpair⟩ : ∃ d, x.fraction = (0, d) := ⟨x.fraction.2, Prod.ext hfraction rfl⟩
  rw [secondOf?, if_neg hrange, hpair]
  show some (x.whole, _) = _
  rw [hnanos]
  show some (x.whole, min (Binary64.zero false).whole 999999999) = _
  rw [Binary64.whole_zero, Nat.zero_min]

end DurationText

namespace Binary64

/-- The number is below 60 by more than the half of a rounding step, and not below zero by more than
the half of the least one. -/
structure Scientific.IsSeconds (x : Scientific) : Prop where
  below : IsBelowMinute (decimalFraction x.digits x.exponent).1
    (decimalFraction x.digits x.exponent).2
  negligible : x.negative = true →
    IsNegligible (decimalFraction x.digits x.exponent).1 (decimalFraction x.digits x.exponent).2

theorem decimalFraction_places (digits places : Nat) :
    decimalFraction digits (0 - places) = (digits, Nat.pow 10 places) := by
  rw [decimalFraction, show (0 - (places : Int)).toNat = 0 by omega,
    show (-(0 - (places : Int))).toNat = places by omega]
  exact congrArg (·, _) (Nat.mul_one _)

theorem isSeconds_places_iff {digits places : Nat} :
    Scientific.IsSeconds ⟨false, digits, 0 - places⟩ ↔
      IsBelowMinute digits (Nat.pow 10 places) := by
  constructor
  · intro h
    have hbelow := h.below
    rwa [decimalFraction_places] at hbelow
  · intro h
    refine ⟨?_, fun hnegative => by cases hnegative⟩
    rwa [decimalFraction_places]

theorem IsBelowMinute.lt {num den : Nat} (h : IsBelowMinute num den) : num < 60 * den := by
  change num * 281474976710656 + den < 16888498602639360 * den at h
  omega

theorem isBelowMinute_of_whole {s den : Nat} (hs : s < 60) (hden : 0 < den) :
    IsBelowMinute (s * den) den := by
  have hle : s * den ≤ 59 * den := Nat.mul_le_mul_right _ (Nat.le_of_lt_succ hs)
  show s * den * 281474976710656 + den < 16888498602639360 * den
  omega

end Binary64

namespace DurationText

/-- Seconds are read exactly if they are absent or their number is written and in the range. -/
theorem readSeconds_isSome_iff {number : Option (List Char)} :
    (TimeOfDay.readSeconds number).isSome = true ↔
      ∀ cs ∈ number, ∃ x : Scientific, x.Writes cs ∧ x.IsSeconds := by
  cases number with
  | none => simp [TimeOfDay.readSeconds]
  | some cs =>
    simp only [← Binary64.readScientific_eq_some_iff, Option.mem_some_iff, forall_eq',
      readSeconds_some]
    cases Binary64.readScientific cs with
    | none => simp
    | some x =>
      simp only [Option.bind_some, Option.some.injEq, exists_eq_left']
      rcases Binary64.ofDecimal?_isRounded x.negative x.digits x.exponent with
        ⟨y, hy, hrounded⟩ | ⟨hnone, hbelow⟩
      · rw [hy, Option.bind_some, secondOf?_isSome_iff, hrounded.whole_lt_iff,
          hrounded.significand_eq_zero_iff, hrounded.negative_eq]
        exact ⟨fun h => ⟨h.1, h.2⟩, fun h => ⟨h.below, h.negligible⟩⟩
      · rw [hnone]
        exact iff_of_false (by simp) fun h => hbelow h.below

/-- Whole seconds are read as they are. -/
theorem readSeconds_of_whole {cs : List Char} {n s places : Nat}
    (h : digitsAndPlaces? cs = some (n, places)) (hs : s < 60) (hn : n = s * Nat.pow 10 places) :
    TimeOfDay.readSeconds (some cs) = some (s, 0) := by
  have hread := Binary64.readScientific_eq_some_iff.mpr (Scientific.writes_of_digitsAndPlaces? h)
  have hrounded := Binary64.ofDecimal?_isRounded false n (0 - places)
  rw [Binary64.decimalFraction_places] at hrounded
  have hbelow : Binary64.IsBelowMinute n (Nat.pow 10 places) := by
    rw [hn]
    exact Binary64.isBelowMinute_of_whole hs (Nat.pow_pos (by decide))
  obtain ⟨x, hx, hrounded⟩ := hrounded.resolve_right fun h => h.2 hbelow
  obtain ⟨hwhole, hfraction⟩ := hrounded.whole_eq s hs hn
  have hlt : x.whole < 60 := by omega
  rw [readSeconds_some, hread, Option.bind_some, hx, Option.bind_some,
    secondOf?_of_whole hrounded.negative_eq hlt hfraction, hwhole]

/-! ### The strict grammar -/

/-- Digits only, with a fraction for the seconds. -/
structure IsPlain (d : DurationText) : Prop where
  present : d ≠ ⟨none, none, none⟩
  hours : ∀ cs ∈ d.hours, isDigits cs = true
  minutes : ∀ cs ∈ d.minutes, isDigits cs = true
  seconds : ∀ cs ∈ d.seconds, (digitsAndPlaces? cs).isSome = true

/-- The value of the hours, 0 where they are absent. -/
def hour (d : DurationText) : Nat := d.hours.elim 0 digitsValue

/-- The value of the minutes, 0 where they are absent. -/
def minute (d : DurationText) : Nat := d.minutes.elim 0 digitsValue

/-- The number of all digits of the seconds, 0 where they are absent, and how many of them are
behind the point. -/
def secondDigits (d : DurationText) : Nat × Nat := (d.seconds.bind digitsAndPlaces?).getD (0, 0)

/-- Plain numbers in the ranges of a time of day. -/
structure IsStrict (d : DurationText) : Prop extends d.IsPlain where
  hour_le : d.hour ≤ 23
  minute_le : d.minute ≤ 59
  second_lt : d.secondDigits.1 < 60 * Nat.pow 10 d.secondDigits.2

/-- The seconds are so near to 60, by at most `2 ^ -48`, that they are rounded to it. -/
def RoundsUp (d : DurationText) : Prop :=
  60 * Nat.pow 2 48 * Nat.pow 10 d.secondDigits.2 ≤
    d.secondDigits.1 * Nat.pow 2 48 + Nat.pow 10 d.secondDigits.2

/-! ### What is read -/

/-- Numbers with or without signs, exponents and bare points, in the ranges of a time of day. -/
structure IsReadable (d : DurationText) : Prop where
  present : d ≠ ⟨none, none, none⟩
  hours : ∀ cs ∈ d.hours, ∃ n, WritesNatural cs n ∧ n ≤ 23
  minutes : ∀ cs ∈ d.minutes, ∃ n, WritesNatural cs n ∧ n ≤ 59
  seconds : ∀ cs ∈ d.seconds, ∃ x : Scientific, x.Writes cs ∧ x.IsSeconds

theorem IsReadable.hasNumbers {d : DurationText} (h : d.IsReadable) : d.HasNumbers where
  present := h.present
  hours := isNumeric_of_writesNatural fun cs hcs => (h.hours cs hcs).imp fun _ hn => hn.1
  minutes := isNumeric_of_writesNatural fun cs hcs => (h.minutes cs hcs).imp fun _ hn => hn.1
  seconds := isNumeric_of_writes fun cs hcs => (h.seconds cs hcs).imp fun _ hx => hx.1

theorem IsPlain.hasNumbers {d : DurationText} (h : d.IsPlain) : d.HasNumbers where
  present := h.present
  hours := isNumeric_of_writesNatural fun cs hcs => ⟨_, .digits (h.hours cs hcs)⟩
  minutes := isNumeric_of_writesNatural fun cs hcs => ⟨_, .digits (h.minutes cs hcs)⟩
  seconds := isNumeric_of_writes fun cs hcs => by
    obtain ⟨⟨n, places⟩, hdigits⟩ := Option.isSome_iff_exists.mp (h.seconds cs hcs)
    exact ⟨_, Scientific.writes_of_digitsAndPlaces? hdigits⟩

theorem time?_isSome_iff {d : DurationText} : d.time?.isSome = true ↔
    (∃ n, TimeOfDay.readComponent d.hours = some n ∧ n ≤ 23) ∧
      (∃ n, TimeOfDay.readComponent d.minutes = some n ∧ n ≤ 59) ∧
        (TimeOfDay.readSeconds d.seconds).isSome = true := by
  rw [time?]
  cases TimeOfDay.readComponent d.hours with
  | none => simp
  | some hour =>
    cases TimeOfDay.readComponent d.minutes with
    | none => simp
    | some minute =>
      cases TimeOfDay.readSeconds d.seconds with
      | none => simp
      | some second => simp

/-- A text is read exactly if it is readable. -/
theorem ofDuration?_isSome_iff {cs : List Char} :
    (TimeOfDay.ofDuration? cs).isSome = true ↔ ∃ d : DurationText, d.chars = cs ∧ d.IsReadable := by
  have hiff (d : DurationText) (hpresent : d ≠ ⟨none, none, none⟩) : d.time?.isSome = true ↔
      d.IsReadable := by
    rw [time?_isSome_iff, readComponent_le_iff (by decide), readComponent_le_iff (by decide),
      readSeconds_isSome_iff]
    exact ⟨fun h => ⟨hpresent, h.1, h.2.1, h.2.2⟩, fun h => ⟨h.hours, h.minutes, h.seconds⟩⟩
  constructor
  · intro h
    obtain ⟨t, ht⟩ := Option.isSome_iff_exists.mp h
    obtain ⟨d, hchars, hpresent, htime⟩ := exists_of_ofDuration? ht
    exact ⟨d, hchars, (hiff d hpresent).mp (by rw [htime]; rfl)⟩
  · rintro ⟨d, rfl, h⟩
    rw [h.hasNumbers.ofDuration?_chars]
    exact (hiff d h.present).mpr h

/-- Digits write a number of a range exactly if their value is in it. -/
theorem writesNatural_le_iff {number : Option (List Char)} {bound : Nat}
    (hdigits : ∀ cs ∈ number, isDigits cs = true) :
    (∀ cs ∈ number, ∃ n, WritesNatural cs n ∧ n ≤ bound) ↔ number.elim 0 digitsValue ≤ bound := by
  cases number with
  | none => simp
  | some cs =>
    simp only [Option.mem_some_iff, forall_eq', Option.elim_some]
    constructor
    · rintro ⟨n, hwrites, hle⟩
      rwa [hwrites.eq_digitsValue (hdigits cs rfl)] at hle
    · exact fun hle => ⟨_, .digits (hdigits cs rfl), hle⟩

/-- Digits with or without a fraction are seconds exactly if they are not rounded to 60. -/
theorem IsPlain.isSeconds_iff {d : DurationText} (h : d.IsPlain) :
    (∀ cs ∈ d.seconds, ∃ x : Scientific, x.Writes cs ∧ x.IsSeconds) ↔ ¬ d.RoundsUp := by
  rw [RoundsUp, secondDigits, Nat.not_le]
  cases hd : d.seconds with
  | none => simp
  | some cs =>
    obtain ⟨⟨n, places⟩, hdigits⟩ := Option.isSome_iff_exists.mp (h.seconds cs hd)
    have hread :=
      Binary64.readScientific_eq_some_iff.mpr (Scientific.writes_of_digitsAndPlaces? hdigits)
    simp only [Option.mem_some_iff, forall_eq', ← Binary64.readScientific_eq_some_iff, hread,
      Option.some.injEq, exists_eq_left', Binary64.isSeconds_places_iff, Option.bind_some, hdigits,
      Option.getD_some]
    rfl

/-- Of the plain texts, those are readable that are strict and not rounded to 60 seconds. -/
theorem IsPlain.isReadable_iff {d : DurationText} (h : d.IsPlain) :
    d.IsReadable ↔ d.IsStrict ∧ ¬ d.RoundsUp := by
  have hhours := @writesNatural_le_iff d.hours 23 h.hours
  have hminutes := @writesNatural_le_iff d.minutes 59 h.minutes
  have hseconds := h.isSeconds_iff
  constructor
  · intro hreadable
    have hbelow := hseconds.mp hreadable.seconds
    refine ⟨⟨h, hhours.mp hreadable.hours, hminutes.mp hreadable.minutes, ?_⟩, hbelow⟩
    exact Binary64.IsBelowMinute.lt (Nat.not_le.mp hbelow)
  · rintro ⟨hstrict, hbelow⟩
    exact ⟨h.present, hhours.mpr hstrict.hour_le, hminutes.mpr hstrict.minute_le,
      hseconds.mpr hbelow⟩

/-- Whole seconds are read with the hour and the minute. -/
theorem IsStrict.ofDuration?_chars {d : DurationText} {s : Nat} (h : d.IsStrict)
    (hs : d.secondDigits.1 = s * Nat.pow 10 d.secondDigits.2) :
    TimeOfDay.ofDuration? d.chars = some ⟨d.hour, d.minute, s, 0⟩ := by
  have hlt : s < 60 := by
    have hmul := h.second_lt
    rw [hs] at hmul
    exact Nat.lt_of_mul_lt_mul_right hmul
  have hseconds : TimeOfDay.readSeconds d.seconds = some (s, 0) := by
    rw [secondDigits] at hs
    cases hd : d.seconds with
    | none =>
      rw [hd] at hs
      obtain rfl : 0 = s := by simpa using hs
      rfl
    | some cs =>
      obtain ⟨⟨n, places⟩, hdigits⟩ := Option.isSome_iff_exists.mp (h.seconds cs hd)
      rw [hd, Option.bind_some, hdigits] at hs
      exact readSeconds_of_whole hdigits hlt hs
  have hhours := readComponent_of_isDigits h.hours (Nat.le_trans h.hour_le (by decide))
  have hminutes := readComponent_of_isDigits h.minutes (Nat.le_trans h.minute_le (by decide))
  have hhour : d.hours.elim 0 digitsValue ≤ 23 := h.hour_le
  have hminute : d.minutes.elim 0 digitsValue ≤ 59 := h.minute_le
  rw [h.hasNumbers.ofDuration?_chars, time?, hhours, hminutes, hseconds]
  simp [hour, minute, hhour, hminute]

end DurationText

/-- A text is a time exactly if it is readable. These are the texts of the strict grammar, but for
the readable ones with a number that is not plain, and for the strict ones with seconds that are
rounded to 60. A strict text with whole seconds is the hour, the minute and the second that it
writes. -/
theorem timeLiteral_isSome_iff (body : List Char) :
    ((LiteralTag.time.literal? body).isSome = true ↔
      ∃ d : DurationText, d.chars = body ∧ d.IsReadable) ∧
    (((LiteralTag.time.literal? body).isSome = true ↔
      ∃ d : DurationText, d.chars = body ∧ d.IsStrict) ↔
      ¬ ∃ d : DurationText, d.chars = body ∧
      (d.IsReadable ∧ ¬ d.IsPlain ∨ d.IsStrict ∧ d.RoundsUp)) ∧
    ∀ (d : DurationText) (s : Nat), d.chars = body → d.IsStrict →
      d.secondDigits.1 = s * Nat.pow 10 d.secondDigits.2 →
        LiteralTag.time.literal? body = some ⟨.time, .time ⟨d.hour, d.minute, s, 0⟩⟩ := by
  have hread : (LiteralTag.time.literal? body).isSome = true ↔
      ∃ d : DurationText, d.chars = body ∧ d.IsReadable := by
    rw [LiteralTag.literal?, Option.isSome_map, DurationText.ofDuration?_isSome_iff]
  refine ⟨hread, ⟨?_, ?_⟩, ?_⟩
  · rintro hiff ⟨d, hchars, ⟨hreadable, hplain⟩ | ⟨hstrict, hround⟩⟩
    · obtain ⟨d', hchars', hstrict⟩ := hiff.mp (hread.mpr ⟨d, hchars, hreadable⟩)
      obtain rfl :=
        hreadable.hasNumbers.eq_of_chars_eq hstrict.hasNumbers (hchars.trans hchars'.symm)
      exact hplain hstrict.toIsPlain
    · obtain ⟨d', hchars', hreadable⟩ := hread.mp (hiff.mpr ⟨d, hchars, hstrict⟩)
      obtain rfl :=
        hreadable.hasNumbers.eq_of_chars_eq hstrict.hasNumbers (hchars'.trans hchars.symm)
      exact (hstrict.isReadable_iff.mp hreadable).2 hround
  · intro hnone
    rw [hread]
    constructor
    · rintro ⟨d, hchars, hreadable⟩
      have hplain : d.IsPlain :=
        Classical.byContradiction fun h => hnone ⟨d, hchars, .inl ⟨hreadable, h⟩⟩
      exact ⟨d, hchars, (hplain.isReadable_iff.mp hreadable).1⟩
    · rintro ⟨d, hchars, hstrict⟩
      have hbelow : ¬ d.RoundsUp := fun h => hnone ⟨d, hchars, .inr ⟨hstrict, h⟩⟩
      exact ⟨d, hchars, hstrict.isReadable_iff.mpr ⟨hstrict, hbelow⟩⟩
  · rintro d s rfl hstrict hs
    rw [LiteralTag.literal?, hstrict.ofDuration?_chars hs]
    rfl

/-- The numbers of `PT13H20M07.00S`. -/
def sampleDuration : DurationText := ⟨some "13".toList, some "20".toList, some "07.00".toList⟩

theorem timeLiteral_sampleDuration : sampleDuration.IsStrict ∧
    LiteralTag.time.literal? "PT13H20M07.00S".toList = some ⟨.time, .time ⟨13, 20, 7, 0⟩⟩ := by
  have hstrict : sampleDuration.IsStrict := by
    refine ⟨⟨by decide, ?_, ?_, ?_⟩, by decide, by decide, by decide⟩ <;>
      (rintro cs ⟨⟩; decide +kernel)
  exact ⟨hstrict, (timeLiteral_isSome_iff _).2.2 sampleDuration 7 (by decide) hstrict (by decide)⟩

/-- A sign before the hours is read, though the strict grammar has none. -/
theorem timeLiteral_signed_not_strict :
    LiteralTag.time.literal? "PT+5H".toList = some ⟨.time, .time ⟨5, 0, 0, 0⟩⟩ ∧
      ¬ ∃ d : DurationText, d.chars = "PT+5H".toList ∧ d.IsStrict := by
  refine ⟨by decide +kernel, ?_⟩
  rintro ⟨d, hchars, hstrict⟩
  have hsigned : DurationText.HasNumbers ⟨some "+5".toList, none, none⟩ := by
    refine ⟨by decide, ?_, by simp [DurationText.IsNumeric], by simp [DurationText.IsNumeric]⟩
    rintro cs ⟨⟩
    exact ⟨by decide, List.all_eq_true.mp (by decide)⟩
  obtain rfl := hstrict.hasNumbers.eq_of_chars_eq hsigned hchars
  exact absurd (hstrict.hours _ rfl) (by decide)

end EntityQuery
