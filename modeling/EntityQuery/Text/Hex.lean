/-!
# Hexadecimal text

Bytes as pairs of hexadecimal digits. Digits are read in either case and written in a chosen one.
-/

namespace EntityQuery.Text

/-- The value of a hexadecimal digit in either case. -/
def hexValue? (c : Char) : Option Nat :=
  if c.isDigit then some (c.toNat - '0'.toNat)
  else if 'a' ≤ c ∧ c ≤ 'f' then some (c.toNat - 'a'.toNat + 10)
  else if 'A' ≤ c ∧ c ≤ 'F' then some (c.toNat - 'A'.toNat + 10)
  else none

/-- Reads an even number of hexadecimal digits as bytes, the high half first. -/
def hexBytes? : List Char → Option (List UInt8)
  | [] => some []
  | [_] => none
  | high :: low :: rest =>
    match hexValue? high, hexValue? low, hexBytes? rest with
    | some h, some l, some bytes => some (UInt8.ofNat (16 * h + l) :: bytes)
    | _, _, _ => none

/-- The lower-case digit of a value below sixteen. -/
def hexDigit (n : Nat) : Char :=
  if n < 10 then Char.ofNat ('0'.toNat + n) else Char.ofNat ('a'.toNat + (n - 10))

/-- The upper-case digit of a value below sixteen. -/
def upperHexDigit (n : Nat) : Char :=
  if n < 10 then Char.ofNat ('0'.toNat + n) else Char.ofNat ('A'.toNat + (n - 10))

/-- Two digits a byte, written with the given digits. -/
def hexChars (digit : Nat → Char) (bytes : List UInt8) : List Char :=
  bytes.flatMap fun b => [digit (b.toNat / 16), digit (b.toNat % 16)]

/-- Lower-case hexadecimal text. -/
def hexText (bytes : List UInt8) : String := String.ofList (hexChars hexDigit bytes)

/-- Upper-case hexadecimal text. -/
def upperHexText (bytes : List UInt8) : String := String.ofList (hexChars upperHexDigit bytes)

end EntityQuery.Text
