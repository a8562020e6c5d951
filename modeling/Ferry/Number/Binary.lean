/-!
# Binary floating point

A format is given by the number of bits of its significand and of its exponent. `round` finds the
bit pattern nearest to `m · 2 ^ e`, a tie going to the even significand; `unpack` takes a pattern
apart again. Everything is exact arithmetic on natural numbers.
-/

namespace Ferry

def pow2 (k : Nat) : Nat := 1 <<< k

/-- A binary interchange format: significand bits (the implicit one included) and exponent bits. -/
structure BinaryFormat where
  precision : Nat
  exponentBits : Nat
deriving DecidableEq, Repr

/-- What a bit pattern stands for: `finite s m e` is `m · 2 ^ e`, negative when `s` is set. -/
inductive Unpacked where
  | nan
  | infinite (negative : Bool)
  | finite (negative : Bool) (significand : Nat) (exponent : Int)
deriving DecidableEq, Repr

namespace BinaryFormat

def single : BinaryFormat := ⟨24, 8⟩

def double : BinaryFormat := ⟨53, 11⟩

def fractionBits (f : BinaryFormat) : Nat :=
  f.precision - 1

def least (f : BinaryFormat) : Int :=
  3 - (pow2 (f.exponentBits - 1) : Nat) - f.precision

def infinity (f : BinaryFormat) : Nat :=
  (pow2 f.exponentBits - 1) * pow2 f.fractionBits

def signBit (f : BinaryFormat) : Nat :=
  pow2 (f.fractionBits + f.exponentBits)

def quiet (f : BinaryFormat) (negative : Bool) (fraction : Nat) : Nat :=
  let half := pow2 (f.fractionBits - 1)
  (if negative then f.signBit else 0) + f.infinity + half + fraction % half

def unpack (f : BinaryFormat) (pattern : Nat) : Unpacked :=
  let negative := decide (f.signBit ≤ pattern)
  let magnitude := pattern % f.signBit
  let field := magnitude / pow2 f.fractionBits
  let fraction := magnitude % pow2 f.fractionBits
  if field = pow2 f.exponentBits - 1 then
    if fraction = 0 then .infinite negative else .nan
  else if field = 0 then
    .finite negative fraction f.least
  else
    .finite negative (fraction + pow2 f.fractionBits) (f.least + field - 1)

def halve (m k : Nat) : Nat :=
  let whole := m / pow2 k
  let rest := 2 * (m % pow2 k)
  if rest < pow2 k then whole
  else if pow2 k < rest then whole + 1
  else whole + whole % 2

/-- The pattern of the number of this format nearest to `m · 2 ^ e`; what is too large is infinite. -/
def round (f : BinaryFormat) (negative : Bool) (m : Nat) (e : Int) : Nat :=
  let sign := if negative then f.signBit else 0
  if m = 0 then sign
  else
    let top : Int := e + Nat.log2 m + 1
    let last := max (top - f.precision) f.least
    let significand := if last ≤ e then m * pow2 (e - last).toNat else halve m (last - e).toNat
    let pattern := (last - f.least).toNat * pow2 f.fractionBits + significand
    sign + min pattern f.infinity

end BinaryFormat

end Ferry
