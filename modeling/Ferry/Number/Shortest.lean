import Ferry.Number.Double

/-!
# Shortest decimal text

`shortest` finds the decimal with the fewest digits that still reads back as the same number, and of
those the one nearest to it. `Double.render` writes it in positional notation: no exponent, and no
fraction for a whole number.
-/

namespace Ferry

def pow10 : Nat → Nat
  | 0 => 1
  | k + 1 => 10 * pow10 k

structure Decimal where
  coefficient : Nat
  exponent : Int
deriving DecidableEq, Repr

/-- A positive number with the interval of those that round to it, over one denominator. -/
structure RoundingInterval where
  low : Nat
  value : Nat
  high : Nat
  denominator : Nat
  closed : Bool

namespace RoundingInterval

/-- The interval around `m · 2 ^ e`. Below a power of two the neighbour is only half as far away. -/
def ofSignificand (f : BinaryFormat) (m : Nat) (e : Int) : RoundingInterval :=
  let below := if m = pow2 f.fractionBits ∧ f.least < e then 1 else 2
  let scale := pow2 (e - 2).toNat
  { low := (4 * m - below) * scale
    value := 4 * m * scale
    high := (4 * m + 2) * scale
    denominator := pow2 (2 - e).toNat
    closed := m % 2 == 0 }

def rescale (r : RoundingInterval) (u : Int) : RoundingInterval :=
  let up := pow10 (-u).toNat
  { low := r.low * up
    value := r.value * up
    high := r.high * up
    denominator := r.denominator * pow10 u.toNat
    closed := r.closed }

def contains (r : RoundingInterval) (c : Nat) : Bool :=
  let x := c * r.denominator
  if r.closed then decide (r.low ≤ x) && decide (x ≤ r.high)
  else decide (r.low < x) && decide (x < r.high)

def integer? (r : RoundingInterval) : Option Nat :=
  let floor := r.value / r.denominator
  let rest := r.value % r.denominator
  match r.contains floor, r.contains (floor + 1) with
  | true, true => some (if 2 * rest < r.denominator then floor else floor + 1)
  | true, false => some floor
  | false, true => some (floor + 1)
  | false, false => none

/-- The least `k` with value below `10 ^ k`, searched upward from an estimate by the binary length. -/
def decimalLength (r : RoundingInterval) : Int :=
  let bits : Int := (Nat.log2 r.value : Int) - Nat.log2 r.denominator
  let guess := bits * 30103 / 100000 - 1
  let below (k : Int) : Bool :=
    decide (r.value * pow10 (-k).toNat < r.denominator * pow10 k.toNat)
  let steps := (List.range 5).find? fun (i : Nat) => below (guess + i)
  guess + steps.getD 5

end RoundingInterval

def shortest (f : BinaryFormat) (m : Nat) (e : Int) : Decimal :=
  let interval := RoundingInterval.ofSignificand f m e
  let length := interval.decimalLength
  let found := (List.range 17).findSome? fun (i : Nat) =>
    let u := length - (i + 1)
    (interval.rescale u).integer?.map fun c => Decimal.mk c u
  found.getD ⟨0, 0⟩

namespace Decimal

def normalize : Nat → Decimal → Decimal
  | 0, d => d
  | n + 1, d =>
    if d.coefficient ≠ 0 ∧ d.coefficient % 10 = 0 then
      normalize n ⟨d.coefficient / 10, d.exponent + 1⟩
    else d

def positional (d : Decimal) : String :=
  let d := d.normalize 20
  let digits := (toString d.coefficient).toList
  let point : Int := digits.length + d.exponent
  if 0 ≤ d.exponent then
    String.ofList (digits ++ List.replicate d.exponent.toNat '0')
  else if point ≤ 0 then
    "0." ++ String.ofList (List.replicate (-point).toNat '0' ++ digits)
  else
    String.ofList (digits.take point.toNat) ++ "." ++ String.ofList (digits.drop point.toNat)

end Decimal

def Double.render (x : Double) : String :=
  match x.unpack with
  | .nan => "NaN"
  | .infinite negative => if negative then "-inf" else "inf"
  | .finite negative m e =>
    let sign := if negative then "-" else ""
    if m = 0 then sign ++ "0"
    else sign ++ (shortest .double m e).positional

end Ferry
