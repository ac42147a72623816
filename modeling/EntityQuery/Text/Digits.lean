/-!
# Decimal digits

Natural numbers and integers as runs of the ASCII digits `0` to `9`: their value, their text, their
text at a fixed least width, and the reading of a bounded number with its three faults.
-/

namespace EntityQuery.Text

/-- The number that a run of decimal digits denotes. -/
def digitsValue (ds : List Char) : Nat := Nat.ofDigitChars 10 ds 0

/-- A non-empty run of decimal digits. -/
def isDigits (cs : List Char) : Bool := !cs.isEmpty && cs.all Char.isDigit

/-- The decimal text of an integer, with `-` before a negative one. -/
def integerText : Int → String
  | .ofNat n => n.repr
  | .negSucc n => "-" ++ (n + 1).repr

/-- The decimal digits of a number, with zeros in front up to the given width. -/
def paddedText (width n : Nat) : String :=
  String.ofList (List.replicate (width - n.repr.length) '0') ++ n.repr

/-- Why a text is not a number of a bounded range. -/
inductive NumberFault where
  | empty
  | invalidDigit
  | tooLarge
  deriving DecidableEq, Repr

/-- The wording of a fault. -/
def NumberFault.message : NumberFault → String
  | .empty => "cannot parse integer from empty string"
  | .invalidDigit => "invalid digit found in string"
  | .tooLarge => "number too large to fit in target type"

/-- Reads digits from the left onto `value`; the first character that is no digit, or that takes the
value above `bound`, decides the fault. -/
def accumulate (bound value : Nat) : List Char → Except NumberFault Nat
  | [] => .ok value
  | c :: cs =>
    if c.isDigit then
      let next := 10 * value + (c.toNat - '0'.toNat)
      if next ≤ bound then accumulate bound next cs else .error .tooLarge
    else .error .invalidDigit

/-- Reads a natural number of at most `bound`, with an optional `+` before its digits. -/
def readBounded (bound : Nat) : List Char → Except NumberFault Nat
  | [] => .error .empty
  | ['+'] => .error .invalidDigit
  | '+' :: cs => accumulate bound 0 cs
  | cs => accumulate bound 0 cs

/-- The largest number of 32 bits. -/
def maxUInt32 : Nat := 4294967295

/-- Reads a number of 32 bits. -/
def readUInt32 (text : String) : Except NumberFault UInt32 :=
  (readBounded maxUInt32 text.toList).map UInt32.ofNat

end EntityQuery.Text
