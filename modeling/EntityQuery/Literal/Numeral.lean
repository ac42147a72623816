import EntityQuery.Literal.Basic
import EntityQuery.Text.Word

/-!
# Numerals

A numeral is an optional `-`, digits, an optional fraction, an optional exponent and an optional
letter that names its type: `L` for 64-bit integers, `M` for decimals, `D` for doubles, `F` for
singles, in either case. Without a letter the exponent makes it a double, the fraction a decimal,
and an integer gets the narrowest type it fits, or becomes a decimal where 64 bits do not hold it.
-/

namespace EntityQuery

/-- The parts of a numeral as they are written. An absent part is empty; the fraction stands without
its point, and the exponent mark is the letter with the sign after it. -/
structure Numeral where
  sign : List Char
  whole : List Char
  fraction : List Char
  exponentMark : List Char
  exponent : List Char
  suffix : List Char
  deriving DecidableEq, Repr

namespace Numeral

/-- The numeral without its type letter. -/
def body (n : Numeral) : List Char :=
  n.sign ++ n.whole ++ (if n.fraction.isEmpty then [] else '.' :: n.fraction) ++
    n.exponentMark ++ n.exponent

/-- All characters of the numeral. -/
def chars (n : Numeral) : List Char := n.body ++ n.suffix

/-- Takes a leading `-`. -/
def takeSign : List Char → List Char × List Char
  | '-' :: cs => (['-'], cs)
  | cs => ([], cs)

/-- Takes a point with at least one digit after it, as the digits. -/
def takeFraction : List Char → List Char × List Char
  | '.' :: cs =>
    let ds := cs.takeWhile Char.isDigit
    if ds.isEmpty then ([], '.' :: cs) else (ds, cs.dropWhile Char.isDigit)
  | cs => ([], cs)

/-- Takes an exponent letter, an optional sign and at least one digit. -/
def takeExponent (cs : List Char) : (List Char × List Char) × List Char :=
  let mark : List Char := match cs with
    | e :: s :: _ => if e = 'e' ∨ e = 'E' then if s = '+' ∨ s = '-' then [e, s] else [e] else []
    | [e] => if e = 'e' ∨ e = 'E' then [e] else []
    | [] => []
  let rest := cs.drop mark.length
  let ds := rest.takeWhile Char.isDigit
  if mark.isEmpty || ds.isEmpty then (([], []), cs) else ((mark, ds), rest.dropWhile Char.isDigit)

/-- A letter that names a type. -/
def isSuffix (c : Char) : Bool := ['L', 'M', 'D', 'F'].contains c.toUpper

/-- Takes a type letter that no further character of a word follows. -/
def takeSuffix : List Char → List Char × List Char
  | c :: cs =>
    if isSuffix c && !(cs.head?.any Text.isWordPart) then ([c], cs) else ([], c :: cs)
  | [] => ([], [])

/-- Takes the numeral at the start of a text, and the rest of the text. -/
def scan (cs : List Char) : Numeral × List Char :=
  let (sign, cs) := takeSign cs
  let whole := cs.takeWhile Char.isDigit
  let cs := cs.dropWhile Char.isDigit
  let (fraction, cs) := takeFraction cs
  let ((mark, exponent), cs) := takeExponent cs
  let (suffix, cs) := takeSuffix cs
  (⟨sign, whole, fraction, mark, exponent, suffix⟩, cs)

/-- The least integer of 64 bits. -/
def minInt64 : Int := -9223372036854775808

/-- The greatest integer of 64 bits. -/
def maxInt64 : Int := 9223372036854775807

/-- The integer that sign and whole part denote. -/
def integerValue (n : Numeral) : Int :=
  let v : Int := Text.digitsValue n.whole
  if n.sign.isEmpty then v else -v

/-- The integer value, where 64 bits hold it. -/
def int64? (n : Numeral) : Option Int :=
  let v := n.integerValue
  if minInt64 ≤ v ∧ v ≤ maxInt64 then some v else none

/-- The power of ten that the exponent denotes. -/
def exponentValue (n : Numeral) : Int :=
  let v : Int := Text.digitsValue n.exponent
  if n.exponentMark.contains '-' then -v else v

/-- The nearest finite floating-point number. -/
def float? (n : Numeral) : Option Binary64 :=
  Binary64.ofDecimal? (!n.sign.isEmpty) (Text.digitsValue (n.whole ++ n.fraction))
    (n.exponentValue - n.fraction.length)

/-- The decimal that keeps the text. -/
def decimal (n : Numeral) : Literal := ⟨.decimal, .decimal (String.ofList n.body)⟩

/-- The double nearest to the numeral. -/
def double? (n : Numeral) : Option Literal := n.float?.map fun x => ⟨.double, .float x⟩

/-- The numeral as a single, kept at double precision, where its magnitude is in range. -/
def single? (n : Numeral) : Option Literal :=
  n.float?.bind fun x => if x.fitsBinary32 then some ⟨.single, .float x⟩ else none

/-- The literal of a numeral, if it is well formed and in range. -/
def literal? (n : Numeral) : Option Literal :=
  if n.whole.isEmpty then none
  else match n.suffix.map Char.toUpper with
    | ['L'] =>
      if n.fraction.isEmpty && n.exponent.isEmpty then
        n.int64?.map fun v => ⟨.int64, .integer v⟩
      else none
    | ['M'] => if n.exponent.isEmpty then some n.decimal else none
    | ['D'] => n.double?
    | ['F'] => n.single?
    | _ =>
      if !n.exponent.isEmpty then n.double?
      else if !n.fraction.isEmpty then some n.decimal
      else match n.int64? with
        | some v => some (Literal.integer v)
        | none => some n.decimal

end Numeral

end EntityQuery
