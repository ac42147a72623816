import EntityQuery.Number.Binary64

/-!
# Times of day

A time of day has a second from 0 to 60, where 60 is a leap second, and nanoseconds. A duration text
`PT13H20M15.5S` is read as the time of day that it reaches from midnight.
-/

namespace EntityQuery

/-- Hour, minute, second and nanosecond. -/
structure TimeOfDay where
  hour : Nat
  minute : Nat
  second : Nat
  nanosecond : Nat
  deriving DecidableEq, Repr

namespace TimeOfDay

/-- The text `hour:minute:second`. -/
def text (t : TimeOfDay) : String :=
  Text.paddedText 2 t.hour ++ ":" ++ Text.paddedText 2 t.minute ++ ":" ++ Text.paddedText 2 t.second

/-- The text with the fraction of the second cut after three places. -/
def milliText (t : TimeOfDay) : String :=
  t.text ++ "." ++ Text.paddedText 3 (t.nanosecond / 1000000)

/-- The text with all nine places of the fraction. -/
def nanoText (t : TimeOfDay) : String := t.text ++ "." ++ Text.paddedText 9 t.nanosecond

/-- Cuts a text at the first occurrence of a designator: the number before it and the text after it.
Without the designator there is no number and the whole text is left; an empty number is refused. -/
def splitDesignator (designator : Char) (cs : List Char) :
    Option (Option (List Char) × List Char) :=
  match cs.span (· != designator) with
  | (_, []) => some (none, cs)
  | ([], _ :: _) => none
  | (number, _ :: rest) => some (some number, rest)

/-- Reads a whole component, 0 where it is absent. -/
def readComponent : Option (List Char) → Option Nat
  | none => some 0
  | some number => (Text.readBounded Text.maxUInt32 number).toOption

/-- Reads the seconds, 0 where they are absent: a decimal number that is not below zero and that,
rounded to the nearest floating-point number, is below 60. The nanoseconds are those of the rounded
fraction, cut to nine places. -/
def readSeconds : Option (List Char) → Option (Nat × Nat)
  | none => some (0, 0)
  | some number =>
    (Binary64.ofText? number).bind fun x =>
      if (x.negative && x.significand != 0) || decide (60 ≤ x.whole) then none
      else
        let (n, d) := x.fraction
        let nanos := match Binary64.ofFraction? false (n * 1000000000) d with
          | some scaled => min scaled.whole 999999999
          | none => 0
        some (x.whole, nanos)

/-- Reads a duration text with hours, minutes and seconds in this order, of which at least one is
present, as a time of day. -/
def ofDuration? : List Char → Option TimeOfDay
  | 'P' :: 'T' :: rest =>
    if rest.isEmpty then none
    else do
      let (hours, rest) ← splitDesignator 'H' rest
      let hour ← readComponent hours
      let (minutes, rest) ← splitDesignator 'M' rest
      let minute ← readComponent minutes
      let (seconds, rest) ← splitDesignator 'S' rest
      let (second, nanosecond) ← readSeconds seconds
      if rest.isEmpty && decide (hour ≤ 23) && decide (minute ≤ 59) then
        some ⟨hour, minute, second, nanosecond⟩
      else none
  | _ => none

end TimeOfDay

end EntityQuery
