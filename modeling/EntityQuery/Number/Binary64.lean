import EntityQuery.Text.Digits

/-!
# Finite binary floating-point numbers of 64 bits

A finite number is a sign, a significand below `2 ^ 53` and an exponent of at least `-1074`; it
stands for `± significand * 2 ^ exponent`. Rounding from an exact fraction goes to the nearest such
number, a tie to the even significand, and fails where the nearest one would be infinite.
-/

namespace EntityQuery

/-- A finite number `± significand * 2 ^ exponent`. -/
structure Binary64 where
  negative : Bool
  significand : Nat
  exponent : Int
  deriving DecidableEq, Repr

namespace Binary64

/-- The least exponent, that of the subnormal numbers. -/
def minExponent : Int := -1074

/-- The greatest exponent. -/
def maxExponent : Int := 971

/-- Zero of the given sign. -/
def zero (negative : Bool) : Binary64 := ⟨negative, 0, minExponent⟩

/-- The quotient of two natural numbers, rounded to the nearest one, a tie to the even one. -/
def divToEven (num den : Nat) : Nat :=
  let q := num / den
  let r := num % den
  if 2 * r < den then q else if 2 * r = den then q + q % 2 else q + 1

/-- The fraction `num / den` divided by `2 ^ e`, as a numerator and a denominator. -/
def unscale (num den : Nat) (e : Int) : Nat × Nat :=
  (num * Nat.pow 2 (-e).toNat, den * Nat.pow 2 e.toNat)

/-- The exponent at which the whole part of `num / den`, divided by its power of two, has 53 bits;
not below the least exponent. -/
def targetExponent (num den : Nat) : Int :=
  let e := (num.log2 : Int) - den.log2 - 52
  let (n, d) := unscale num den e
  max (if n / d < Nat.pow 2 52 then e - 1 else e) minExponent

/-- The number nearest to `± num / den`, for a positive denominator. -/
def ofFraction? (negative : Bool) (num den : Nat) : Option Binary64 :=
  if num = 0 then some (zero negative)
  else
    let e := targetExponent num den
    let (n, d) := unscale num den e
    let m := divToEven n d
    let (m, e) := if m = Nat.pow 2 53 then (Nat.pow 2 52, e + 1) else (m, e)
    if e ≤ maxExponent then some ⟨negative, m, e⟩ else none

/-- The number nearest to `± digits * 10 ^ e`. Exponents so large that the value exceeds every
finite number, or so small that it is nearer to zero than to any other, are answered without the
power. -/
def ofDecimal? (negative : Bool) (digits : Nat) (e : Int) : Option Binary64 :=
  if digits = 0 then some (zero negative)
  else if 310 < e then none
  else if (digits.log2 : Int) + 1 + 3 * e < -1100 then some (zero negative)
  else ofFraction? negative (digits * Nat.pow 10 e.toNat) (Nat.pow 10 (-e).toNat)

/-- The magnitude is at most `(2 ^ 24 - 1) * 2 ^ 104`, the largest finite number of 32 bits. -/
def fitsBinary32 (x : Binary64) : Bool :=
  decide (x.significand * Nat.pow 2 x.exponent.toNat ≤
    (Nat.pow 2 24 - 1) * Nat.pow 2 104 * Nat.pow 2 (-x.exponent).toNat)

/-- The whole part of the magnitude. -/
def whole (x : Binary64) : Nat :=
  x.significand * Nat.pow 2 x.exponent.toNat / Nat.pow 2 (-x.exponent).toNat

/-- The fractional part of the magnitude, as a numerator and a denominator. -/
def fraction (x : Binary64) : Nat × Nat :=
  let d := Nat.pow 2 (-x.exponent).toNat
  (x.significand * Nat.pow 2 x.exponent.toNat % d, d)

/-- The interchange encoding: sign, biased exponent and the low 52 bits of the significand. -/
def bits (x : Binary64) : Nat :=
  (if x.negative then Nat.pow 2 63 else 0) +
    if x.significand < Nat.pow 2 52 then x.significand
    else (x.exponent - minExponent + 1).toNat * Nat.pow 2 52 + (x.significand - Nat.pow 2 52)

/-- The digits of a decimal floating-point text: sign, digits and the power of ten they are scaled
by. -/
structure Scientific where
  negative : Bool
  digits : Nat
  exponent : Int
  deriving DecidableEq, Repr

/-- Splits an optional sign from a text. -/
def splitSign : List Char → Bool × List Char
  | '-' :: cs => (true, cs)
  | '+' :: cs => (false, cs)
  | cs => (false, cs)

/-- Reads an optional exponent, which must end the text. -/
def readExponent : List Char → Option Int
  | [] => some 0
  | c :: cs =>
    let (negative, ds) := splitSign cs
    if (c == 'e' || c == 'E') && Text.isDigits ds then
      let n : Int := Text.digitsValue ds
      some (if negative then -n else n)
    else none

/-- Reads a decimal text with an optional sign, digits on at least one side of an optional point,
and an optional exponent. -/
def readScientific (text : List Char) : Option Scientific :=
  let (negative, cs) := splitSign text
  let whole := cs.takeWhile Char.isDigit
  let afterWhole := cs.dropWhile Char.isDigit
  let (fraction, rest) := match afterWhole with
    | '.' :: r => (r.takeWhile Char.isDigit, r.dropWhile Char.isDigit)
    | r => ([], r)
  if whole.isEmpty && fraction.isEmpty then none
  else (readExponent rest).map fun e =>
    ⟨negative, Text.digitsValue (whole ++ fraction), e - fraction.length⟩

/-- Reads a decimal text as the nearest finite number. -/
def ofText? (text : List Char) : Option Binary64 :=
  (readScientific text).bind fun s => ofDecimal? s.negative s.digits s.exponent

end Binary64

end EntityQuery
