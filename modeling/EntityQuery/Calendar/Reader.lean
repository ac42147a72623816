import EntityQuery.Calendar.DateTime
import EntityQuery.Text.Blank

/-!
# Reading date-times

Two texts are read. A plain date-time `2010-01-31T12:00[:05[.25]]` allows blanks before each number,
short numbers and, after a sign, a year of any length. A date-time with an offset
`2010-01-31T12:00:05[.25]+02:00` has fixed widths.
-/

namespace EntityQuery.Calendar

/-- Reads at least `least` and at most `most` digits. -/
def readNumber (least most : Nat) (cs : List Char) : Option (Nat × List Char) :=
  let ds := (cs.take most).takeWhile Char.isDigit
  if ds.length < least then none else some (Text.digitsValue ds, cs.drop ds.length)

/-- Reads all digits up to the next other character, of which there must be one at least. -/
def readAllDigits (cs : List Char) : Option (Nat × List Char) :=
  let ds := cs.takeWhile Char.isDigit
  if ds.isEmpty then none else some (Text.digitsValue ds, cs.dropWhile Char.isDigit)

/-- Reads one given character. -/
def readChar (c : Char) : List Char → Option (List Char)
  | d :: cs => if d = c then some cs else none
  | [] => none

/-- Reads a number of one or two digits after blanks. -/
def readField (cs : List Char) : Option (Nat × List Char) :=
  readNumber 1 2 (cs.dropWhile Text.isBlank)

/-- Reads a year after blanks: up to four digits, or a sign and any number of digits. -/
def readYear (cs : List Char) : Option (Int × List Char) :=
  match cs.dropWhile Text.isBlank with
  | '-' :: r => (readAllDigits r).map fun (n, r) => (-(n : Int), r)
  | '+' :: r => (readAllDigits r).map fun (n, r) => ((n : Int), r)
  | r => (readNumber 1 4 r).map fun (n, r) => ((n : Int), r)

/-- The nanoseconds of the digits after a point; those after the ninth are dropped. -/
def nanoseconds (ds : List Char) : Nat :=
  Text.digitsValue (ds.take 9) * Nat.pow 10 (9 - ds.length)

/-- Reads an optional point with at least one digit after it. -/
def readFraction : List Char → Option (Nat × List Char)
  | '.' :: cs =>
    let ds := cs.takeWhile Char.isDigit
    if ds.isEmpty then none else some (nanoseconds ds, cs.dropWhile Char.isDigit)
  | cs => some (0, cs)

/-- The time of day of its parts, if a clock shows it. -/
def timeOfParts? (hour minute second nanosecond : Nat) : Option TimeOfDay :=
  if hour ≤ 23 ∧ minute ≤ 59 ∧ second ≤ 60 then some ⟨hour, minute, second, nanosecond⟩ else none

/-- Reads a date, the letter `T`, an hour and a minute. -/
def readToMinute (cs : List Char) : Option ((Date × Nat × Nat) × List Char) := do
  let (year, cs) ← readYear cs
  let (month, cs) ← readField (← readChar '-' cs)
  let (day, cs) ← readField (← readChar '-' cs)
  let (hour, cs) ← readField (← readChar 'T' cs)
  let (minute, cs) ← readField (← readChar ':' cs)
  let date ← Date.ofParts? year month day
  return ((date, hour, minute), cs)

/-- Reads a plain date-time, whose seconds may be absent. -/
def readDateTime? (text : List Char) : Option DateTime := do
  let ((date, hour, minute), cs) ← readToMinute text
  match cs with
  | [] => (timeOfParts? hour minute 0 0).map (DateTime.mk date)
  | ':' :: cs =>
    let (second, cs) ← readField cs
    let (nanosecond, cs) ← readFraction cs
    if cs.isEmpty then (timeOfParts? hour minute second nanosecond).map (DateTime.mk date) else none
  | _ => none

/-- Reads the offset that ends a text, in minutes: `Z`, or a sign, two digits, `:` and two
digits. -/
def readOffset : List Char → Option Int
  | ['Z'] => some 0
  | ['z'] => some 0
  | sign :: cs => do
    let (hours, cs) ← readNumber 2 2 cs
    let (minutes, cs) ← readNumber 2 2 (← readChar ':' cs)
    if cs.isEmpty && decide (hours ≤ 23) && decide (minutes ≤ 59) then
      let total : Int := hours * 60 + minutes
      if sign = '+' then some total
      else if sign = '-' ∨ sign = '−' then some (-total)
      else none
    else none
  | [] => none

/-- Reads the letter or the space between date and time. -/
def readTimeMark : List Char → Option (List Char)
  | c :: cs => if c = 'T' ∨ c = 't' ∨ c = ' ' then some cs else none
  | [] => none

/-- Reads a date-time with an offset. -/
def readOffsetDateTime? (text : List Char) : Option OffsetDateTime := do
  let (year, cs) ← readNumber 4 4 text
  let (month, cs) ← readNumber 2 2 (← readChar '-' cs)
  let (day, cs) ← readNumber 2 2 (← readChar '-' cs)
  let (hour, cs) ← readNumber 2 2 (← readTimeMark cs)
  let (minute, cs) ← readNumber 2 2 (← readChar ':' cs)
  let (second, cs) ← readNumber 2 2 (← readChar ':' cs)
  let (nanosecond, cs) ← readFraction cs
  let offset ← readOffset cs
  let date ← Date.ofParts? year month day
  let time ← timeOfParts? hour minute second nanosecond
  return ⟨⟨date, time⟩, offset⟩

end EntityQuery.Calendar
