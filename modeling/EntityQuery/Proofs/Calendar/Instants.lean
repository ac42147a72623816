import EntityQuery.Literal.Typed
import EntityQuery.Proofs.Calendar.OffsetText

/-!
# Instants

An instant is a number of nanoseconds, and a valid date-time of universal time is determined by its
instant. A clock with an offset shows another date-time at the same instant, and going back by the
offset leads over the ends of hours, days, months and years. Main result: a literal with an offset
is written as the date-time of universal time at its instant, so literals of the same instant are
written alike.
-/

namespace EntityQuery

namespace DateTime

/-- A valid date with a time that a clock shows, leap seconds apart. -/
structure IsValid (t : DateTime) : Prop where
  date : t.date.IsValid
  hour_le : t.time.hour ≤ 23
  minute_le : t.time.minute ≤ 59
  second_lt : t.time.second < 60
  nanosecond_lt : t.time.nanosecond < 1000000000

/-- The number of a minute, by the number of its day. -/
def minuteNumber (t : DateTime) : Int :=
  t.date.dayNumber * 1440 + (t.time.hour * 60 + t.time.minute : Nat)

/-- The instant in nanoseconds at which the clock of universal time shows a date-time. -/
def instant (t : DateTime) : Int :=
  (t.minuteNumber * 60 + t.time.second) * 1000000000 + t.time.nanosecond

variable {t u : DateTime}

/-- A minute of a valid date-time is determined by its number. -/
theorem eq_of_minuteNumber_eq (ht : t.IsValid) (hu : u.IsValid)
    (h : t.minuteNumber = u.minuteNumber) :
    t.date = u.date ∧ t.time.hour = u.time.hour ∧ t.time.minute = u.time.minute := by
  have := ht.hour_le
  have := ht.minute_le
  have := hu.hour_le
  have := hu.minute_le
  unfold minuteNumber at h
  have hday : t.date.dayNumber = u.date.dayNumber := by omega
  exact ⟨Date.eq_of_dayNumber_eq ht.date hu.date hday, by omega, by omega⟩

/-- A valid date-time is determined by its instant. -/
theorem eq_of_instant_eq (ht : t.IsValid) (hu : u.IsValid) (h : t.instant = u.instant) : t = u := by
  have := ht.nanosecond_lt
  have := hu.nanosecond_lt
  have := ht.second_lt
  have := hu.second_lt
  unfold instant at h
  have hnanosecond : t.time.nanosecond = u.time.nanosecond := by omega
  have hsecond : t.time.second = u.time.second := by omega
  have hminutes : t.minuteNumber = u.minuteNumber := by omega
  obtain ⟨hdate, hhour, hminute⟩ := eq_of_minuteNumber_eq ht hu hminutes
  calc t = ⟨t.date, ⟨t.time.hour, t.time.minute, t.time.second, t.time.nanosecond⟩⟩ := rfl
    _ = ⟨u.date, ⟨u.time.hour, u.time.minute, u.time.second, u.time.nanosecond⟩⟩ := by
      rw [hdate, hhour, hminute, hsecond, hnanosecond]
    _ = u := rfl

/-! ### Clocks that are behind -/

theorem IsValid.subMinutes (h : t.IsValid) (minutes : Int) : (t.subMinutes minutes).IsValid := by
  have hdate : (t.subMinutes minutes).date.IsValid := by
    simp only [DateTime.subMinutes]
    split
    · exact h.date.prev
    · split
      · exact h.date.next
      · exact h.date
  refine ⟨hdate, ?_, ?_, h.second_lt, h.nanosecond_lt⟩
  · simp only [DateTime.subMinutes]
    omega
  · simp only [DateTime.subMinutes]
    omega

/-- A clock that is behind by less than a day shows a minute that is before by as much. -/
theorem minuteNumber_subMinutes (h : t.IsValid) {minutes : Int} (hlow : -1440 < minutes)
    (hhigh : minutes < 1440) :
    (t.subMinutes minutes).minuteNumber = t.minuteNumber - minutes := by
  have := h.hour_le
  have := h.minute_le
  simp only [minuteNumber, DateTime.subMinutes]
  -- the day before, the day after, or the same day
  split
  · rw [Date.dayNumber_prev h.date]
    omega
  · split
    · rw [Date.dayNumber_next h.date]
      omega
    · omega

end DateTime

namespace OffsetDateTime

/-- The instant at which a clock with an offset shows a date-time. -/
def instant (t : OffsetDateTime) : Int := t.localTime.instant - t.offset * 60 * 1000000000

/-- The date-time of universal time is at the same instant. -/
theorem instant_utc {t : OffsetDateTime} (h : t.localTime.IsValid)
    (hoffset : -1440 < t.offset ∧ t.offset < 1440) :
    t.utc.instant = t.instant := by
  have hminutes := DateTime.minuteNumber_subMinutes h hoffset.1 hoffset.2
  have hsecond : t.utc.time.second = t.localTime.time.second := rfl
  have hnanosecond : t.utc.time.nanosecond = t.localTime.time.nanosecond := rfl
  rw [instant, DateTime.instant, DateTime.instant, hsecond, hnanosecond, utc, hminutes]
  omega

/-- Without an offset a clock shows universal time. -/
theorem utc_of_offset_zero {u : DateTime} (h : u.IsValid) : utc ⟨u, 0⟩ = u := by
  have hzero : -1440 < (0 : Int) ∧ (0 : Int) < 1440 := by decide
  have hinstant := @instant_utc ⟨u, 0⟩ h hzero
  refine DateTime.eq_of_instant_eq (h.subMinutes 0) h (hinstant.trans ?_)
  simp only [instant]
  omega

end OffsetDateTime

namespace Calendar

variable {cs : List Char} {t : OffsetDateTime}

/-- What is written has a valid date-time, leap seconds apart, and an offset of less than a day. -/
theorem WritesOffsetDateTime.isValid (h : WritesOffsetDateTime cs t)
    (hsecond : t.localTime.time.second < 60) :
    t.localTime.IsValid ∧ -1440 < t.offset ∧ t.offset < 1440 := by
  cases h with
  | parts _ _ _ _ _ _ _ hfraction hoffset hdate htime =>
    exact ⟨⟨hdate, htime.1, htime.2.1, hsecond, hfraction.lt⟩, hoffset.bounds⟩

/-- The date-time of universal time is the one at the instant of what is written. -/
theorem WritesOffsetDateTime.utc_iff (h : WritesOffsetDateTime cs t)
    (hsecond : t.localTime.time.second < 60) (u : DateTime) :
    u.IsValid ∧ u.instant = t.instant ↔ u = t.utc := by
  obtain ⟨hvalid, hoffset⟩ := h.isValid hsecond
  have hutc := t.instant_utc hvalid hoffset
  constructor
  · rintro ⟨hu, hinstant⟩
    exact DateTime.eq_of_instant_eq hu (hvalid.subMinutes t.offset) (hinstant.trans hutc.symm)
  · rintro rfl
    exact ⟨hvalid.subMinutes t.offset, hutc⟩

/-! ### The text of universal time -/

/-- The text of a date-time of universal time, with all places of the fraction. -/
def universalText (u : DateTime) : String := u.date.text ++ "T" ++ u.time.nanoText ++ "Z"

/-- Nine digits of a fraction are its nanoseconds. -/
theorem writesFraction_paddedText {n : Nat} (h : n < 1000000000) :
    WritesFraction ('.' :: (Text.paddedText 9 n).toList) n := by
  have hnine := @Text.writesNumber_paddedText 9 n (by decide) h
  have hne : (Text.paddedText 9 n).toList ≠ [] := by
    intro hnil
    have hlength := hnine.length_eq
    rw [hnil] at hlength
    cases hlength
  have hwritten := WritesFraction.digits (Text.isDigits_iff.mpr ⟨hne, hnine.isDigit⟩)
  rw [hnine.value_eq, hnine.length_eq] at hwritten
  rwa [show Nat.pow 10 9 = 1000000000 from rfl, Nat.mul_div_cancel _ (by decide)] at hwritten

/-- The numbers and marks of the text of a date-time in a year of four digits. -/
theorem toList_universalText {year : Nat} (hyear : year ≤ 9999)
    (month day hour minute second nanosecond : Nat) :
    (universalText ⟨⟨year, month, day⟩, ⟨hour, minute, second, nanosecond⟩⟩).toList =
      (Text.paddedText 4 year).toList ++ '-' :: ((Text.paddedText 2 month).toList ++ '-' ::
        ((Text.paddedText 2 day).toList ++ 'T' :: ((Text.paddedText 2 hour).toList ++ ':' ::
          ((Text.paddedText 2 minute).toList ++ ':' :: ((Text.paddedText 2 second).toList ++
            ('.' :: (Text.paddedText 9 nanosecond).toList ++ ['Z'])))))) := by
  have hyearText : Date.yearText (year : Int) = Text.paddedText 4 year := by
    rw [Date.yearText, if_pos ⟨Int.natCast_nonneg year, Int.ofNat_le.mpr hyear⟩]
    rfl
  simp [universalText, Date.text, TimeOfDay.nanoText, TimeOfDay.text, hyearText]

/-- The text of a date-time in a year of four digits writes it. -/
theorem writes_universalText {u : DateTime} (h : u.IsValid)
    (hyear : 0 ≤ u.date.year ∧ u.date.year ≤ 9999) :
    WritesOffsetDateTime (universalText u).toList ⟨u, 0⟩ := by
  obtain ⟨⟨year, month, day⟩, hour, minute, second, nanosecond⟩ := u
  obtain ⟨year, rfl⟩ := Int.eq_ofNat_of_zero_le hyear.1
  have hyear : year ≤ 9999 := Int.ofNat_le.mp hyear.2
  have hmonth : month ≤ 12 := h.date.month_le
  have hday : day ≤ 31 := Nat.le_trans h.date.day_le (Date.daysInMonth_bounds _ _).2
  have hhour : hour ≤ 23 := h.hour_le
  have hminute : minute ≤ 59 := h.minute_le
  have hsecond : second < 60 := h.second_lt
  have hwrites {k : Nat} (hk : k < 100) := @Text.writesNumber_paddedText 2 k (by decide) hk
  rw [toList_universalText hyear]
  exact .parts (Text.writesNumber_paddedText (by decide) (Nat.lt_succ_of_le hyear))
    (hwrites (by omega))
    (hwrites (by omega)) (.inl rfl) (hwrites (by omega)) (hwrites (by omega)) (hwrites (by omega))
    (writesFraction_paddedText h.nanosecond_lt) (.none (.inl rfl)) h.date
      ⟨hhour, hminute, Nat.le_of_lt hsecond⟩

end Calendar

/-! ### Literals -/

open Calendar (WritesOffsetDateTime universalText)

/-- The literal of a date-time with an offset. -/
def Literal.offsetDateTime (t : OffsetDateTime) : Literal := ⟨.dateTimeOffset, .dateTimeOffset t⟩

theorem Literal.text_offsetDateTime {t t' : OffsetDateTime} (h : t.utc = t'.utc) :
    (offsetDateTime t).text = (offsetDateTime t').text :=
  congrArg (fun u => "\x7bts '" ++ DateTime.milliText u ++ "'\x7d") h

theorem LiteralTag.literal?_dateTimeOffset_iff {body : List Char} {l : Literal} :
    dateTimeOffset.literal? body = some l ↔
      ∃ t, WritesOffsetDateTime body t ∧ l = .offsetDateTime t := by
  simp only [literal?, Option.map_eq_some_iff, Calendar.readOffsetDateTime?_eq_some_iff,
    Literal.offsetDateTime, @eq_comm _ l]

/-- A literal with an offset is written as the only date-time of universal time that is at its
instant, with the fraction cut after three places. So is every other literal at that instant,
whatever its offset, and the one with the date-time of universal time itself, which has a text if
its year has four digits. -/
theorem offsetLiteral_text_universal (body : List Char) (l : Literal)
    (h : LiteralTag.dateTimeOffset.literal? body = some l) :
    ∃ t, WritesOffsetDateTime body t ∧ l = .offsetDateTime t ∧ (t.localTime.time.second < 60 →
      (∃ u : DateTime, (∀ v : DateTime, v.IsValid ∧ v.instant = t.instant ↔ v = u) ∧
        l.text = "\x7bts '" ++ (u.date.text ++ " " ++ (u.time.text ++ "." ++
          Text.paddedText 3 (u.time.nanosecond / 1000000))) ++ "'\x7d" ∧
        (Literal.offsetDateTime ⟨u, 0⟩).text = l.text ∧
        (0 ≤ u.date.year ∧ u.date.year ≤ 9999 →
          LiteralTag.dateTimeOffset.literal? (universalText u).toList =
            some (.offsetDateTime ⟨u, 0⟩))) ∧
      ∀ body' t', WritesOffsetDateTime body' t' → t'.localTime.time.second < 60 →
        t'.instant = t.instant →
        ∃ l', LiteralTag.dateTimeOffset.literal? body' = some l' ∧ l'.text = l.text) := by
  obtain ⟨t, hwrites, rfl⟩ := LiteralTag.literal?_dateTimeOffset_iff.mp h
  refine ⟨t, hwrites, rfl, fun hsecond => ?_⟩
  have hutc := hwrites.utc_iff hsecond
  have hvalid : t.utc.IsValid := ((hutc t.utc).mpr rfl).1
  refine ⟨⟨t.utc, hutc, rfl, Literal.text_offsetDateTime (OffsetDateTime.utc_of_offset_zero hvalid),
    ?_⟩, ?_⟩
  · intro hyear
    exact LiteralTag.literal?_dateTimeOffset_iff.mpr
      ⟨_, Calendar.writes_universalText hvalid hyear, rfl⟩
  · intro body' t' hwrites' hsecond' hinstant
    obtain ⟨hvalid', hinstant'⟩ := (hwrites'.utc_iff hsecond' t'.utc).mpr rfl
    refine ⟨_, LiteralTag.literal?_dateTimeOffset_iff.mpr ⟨t', hwrites', rfl⟩, ?_⟩
    exact Literal.text_offsetDateTime ((hutc t'.utc).mp ⟨hvalid', hinstant'.trans hinstant⟩)

/-- Going back two hours from the first of March leads into a leap day of a year that 400 divides,
and going on one hour in the evening stays in it. -/
theorem offsetLiteral_text_leapDay :
    ∃ l l', LiteralTag.dateTimeOffset.literal? "2000-03-01T00:30:15.9999+02:00".toList = some l ∧
      LiteralTag.dateTimeOffset.literal? "2000-02-29t21:30:15.99990−01:00".toList = some l' ∧
      l.text = "\x7bts '2000-02-29 22:30:15.999'\x7d" ∧ l'.text = l.text := by
  have hmarch : LiteralTag.dateTimeOffset.literal? "2000-03-01T00:30:15.9999+02:00".toList =
      some (.offsetDateTime ⟨⟨⟨2000, 3, 1⟩, ⟨0, 30, 15, 999900000⟩⟩, 120⟩) := by decide +kernel
  have hfebruary : LiteralTag.dateTimeOffset.literal? "2000-02-29t21:30:15.99990−01:00".toList =
      some (.offsetDateTime ⟨⟨⟨2000, 2, 29⟩, ⟨21, 30, 15, 999900000⟩⟩, -60⟩) := by decide +kernel
  obtain ⟨t, _, ht, hmain⟩ := offsetLiteral_text_universal _ _ hmarch
  obtain ⟨t', hwrites', ht', _⟩ := offsetLiteral_text_universal _ _ hfebruary
  cases ht
  cases ht'
  obtain ⟨⟨u, hutc, htext, _⟩, hsame⟩ := hmain (by decide)
  have hleapDay : ⟨⟨2000, 2, 29⟩, ⟨22, 30, 15, 999900000⟩⟩ = u :=
    (hutc _).mp ⟨⟨⟨by decide, by decide, by decide, by decide⟩,
      by decide, by decide, by decide, by decide⟩, by decide⟩
  obtain ⟨l', hl', htext'⟩ := hsame _ _ hwrites' (by decide) (by decide)
  refine ⟨_, l', hmarch, hl', ?_, htext'⟩
  rw [htext, ← hleapDay]
  decide +kernel

end EntityQuery
