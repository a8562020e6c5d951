import Ferry.Number.Binary

/-!
# Double-precision numbers

A `Double` is its bit pattern, so that two of them can be told apart bit for bit. Comparison and
conversion follow the arithmetic: a number that is not a number differs from itself, and the two
zeros are equal.
-/

namespace Ferry

/-- A double-precision number, kept as its bit pattern. -/
structure Double where
  bits : UInt64
deriving DecidableEq, Inhabited, Repr

namespace Double

def unpack (x : Double) : Unpacked :=
  BinaryFormat.double.unpack x.bits.toNat

def isNaN (x : Double) : Bool :=
  x.unpack = .nan

def same (x y : Double) : Bool :=
  match x.unpack, y.unpack with
  | .nan, _ | _, .nan => false
  | .finite _ 0 _, .finite _ 0 _ => true
  | _, _ => x.bits == y.bits

def ofInt (i : Int) : Double :=
  ⟨UInt64.ofNat (BinaryFormat.double.round (decide (i < 0)) i.natAbs 0)⟩

def toSingle (x : Double) : UInt32 :=
  UInt32.ofNat <|
    match x.unpack with
    | .nan =>
      BinaryFormat.single.quiet (decide (0x8000000000000000 ≤ x.bits.toNat))
        (x.bits.toNat % pow2 52 / pow2 29)
    | .infinite negative =>
      BinaryFormat.single.infinity + if negative then BinaryFormat.single.signBit else 0
    | .finite negative m e => BinaryFormat.single.round negative m e

/-- The double with the value of a single-precision pattern; nothing is lost. -/
def ofSingle (pattern : UInt32) : Double :=
  ⟨UInt64.ofNat <|
    match BinaryFormat.single.unpack pattern.toNat with
    | .nan =>
      BinaryFormat.double.quiet (decide (0x80000000 ≤ pattern.toNat)) (pattern.toNat % pow2 23 * pow2 29)
    | .infinite negative =>
      BinaryFormat.double.infinity + if negative then BinaryFormat.double.signBit else 0
    | .finite negative m e => BinaryFormat.double.round negative m e⟩

end Double

end Ferry
