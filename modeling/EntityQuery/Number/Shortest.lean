import EntityQuery.Number.Binary64

/-!
# The shortest decimal text of a floating-point number

A number is written with the fewest digits that read back as the same number, in positional notation
and without a point where no digit follows it. Among the decimals of that many digits the nearest
one is taken, and of two equally near ones the greater. Zero keeps its sign.
-/

namespace EntityQuery.Binary64

/-- Whether `a * 10 ^ p < b * 2 ^ e`. -/
def decimalLt (a : Nat) (p : Int) (b : Nat) (e : Int) : Bool :=
  decide (a * Nat.pow 10 p.toNat * Nat.pow 2 (-e).toNat <
    b * Nat.pow 2 e.toNat * Nat.pow 10 (-p).toNat)

/-- Whether `a * 10 ^ p = b * 2 ^ e`. -/
def decimalEq (a : Nat) (p : Int) (b : Nat) (e : Int) : Bool :=
  decide (a * Nat.pow 10 p.toNat * Nat.pow 2 (-e).toNat =
    b * Nat.pow 2 e.toNat * Nat.pow 10 (-p).toNat)

/-- Whether `a * 10 ^ p` rounds to the magnitude of `x`: it lies between the midpoints to the two
neighbours of `x`, which count exactly if the significand of `x` is even. The lower neighbour of a
power of two is nearer by half. -/
def readsBack (x : Binary64) (a : Nat) (p : Int) : Bool :=
  let m := x.significand
  let e := x.exponent - 2
  let below := if m = Nat.pow 2 52 ∧ minExponent < x.exponent then 4 * m - 1 else 4 * m - 2
  let above := 4 * m + 2
  let closed := m % 2 == 0
  (!decimalLt a p below e && (closed || !decimalEq a p below e)) &&
    (decimalLt a p above e || (closed && decimalEq a p above e))

/-- The number of decimal digits before the point of a positive magnitude: the least `k` with the
magnitude below `10 ^ k`, negative where zeros follow the point. -/
def decimalWidth (x : Binary64) : Int :=
  let k := (((x.significand.log2 : Int) + x.exponent) * 30103).fdiv 100000 + 1
  if !decimalLt 1 k x.significand x.exponent && !decimalEq 1 k x.significand x.exponent then
    if decimalLt 1 (k - 1) x.significand x.exponent || decimalEq 1 (k - 1) x.significand x.exponent
    then k else k - 1
  else k + 1

/-- The magnitude of `x` divided by `10 ^ p`, rounded down. -/
def decimalFloor (x : Binary64) (p : Int) : Nat :=
  x.significand * Nat.pow 2 x.exponent.toNat * Nat.pow 10 (-p).toNat /
    (Nat.pow 2 (-x.exponent).toNat * Nat.pow 10 p.toNat)

/-- Whether the point halfway between `a * 10 ^ p` and its successor lies above the magnitude. -/
def nearerToFloor (x : Binary64) (a : Nat) (p : Int) : Bool :=
  !decimalLt (2 * a + 1) p (2 * x.significand) x.exponent &&
    !decimalEq (2 * a + 1) p (2 * x.significand) x.exponent

/-- The decimal of `n` digits that reads back as `x`, if there is one. -/
def decimalOfWidth? (x : Binary64) (n : Nat) : Option (Nat × Int) :=
  let p := decimalWidth x - n
  let a := decimalFloor x p
  match readsBack x a p, readsBack x (a + 1) p with
  | true, true => some (if nearerToFloor x a p then a else a + 1, p)
  | true, false => some (a, p)
  | false, true => some (a + 1, p)
  | false, false => none

/-- The shortest decimal, as digits and a power of ten; seventeen digits always read back. -/
def shortest (x : Binary64) : Nat × Int :=
  match (List.range 16).findSome? fun i =>
      (decimalOfWidth? x (i + 1)).map fun (a, p) =>
        if a = Nat.pow 10 (i + 1) then (1, p + (i + 1)) else (a, p) with
  | some d => d
  | none =>
    let p := decimalWidth x - 17
    let a := decimalFloor x p
    (if nearerToFloor x a p then a else a + 1, p)

/-- The positional text of `a * 10 ^ p`. -/
def positional (a : Nat) (p : Int) : String :=
  let ds := a.repr.toList
  if 0 ≤ p then String.ofList (ds ++ List.replicate p.toNat '0')
  else
    let places := (-p).toNat
    let padded := List.replicate (places + 1 - ds.length) '0' ++ ds
    String.ofList
      (padded.take (padded.length - places) ++ '.' :: padded.drop (padded.length - places))

/-- The text of a number. -/
def text (x : Binary64) : String :=
  let magnitude := if x.significand = 0 then "0" else let (a, p) := shortest x; positional a p
  if x.negative then "-" ++ magnitude else magnitude

end EntityQuery.Binary64
