import Ferry.Native.Type
import Ferry.Native.Bytes
import Ferry.Text.Hex

/-!
# Argument slots

A `Slot` is one machine word as it is passed to native code and back. A value of a type narrower
than a word lives in the low bytes of its slot: `Slot.payload` is that part, and two slots carry the
same value of a type when their payloads agree.
-/

namespace Ferry

/-- One machine word of a native argument or return value. -/
structure Slot where
  bits : UInt64
deriving DecidableEq, Inhabited, Repr

namespace Slot

def zero : Slot := ⟨0⟩

def ofNat (n : Nat) : Slot := ⟨UInt64.ofNat n⟩

def ofInt (i : Int) : Slot := ⟨UInt64.ofInt i⟩

def ofAddress (a : UInt64) : Slot := ⟨a⟩

def address (s : Slot) : UInt64 := s.bits

def isNull (s : Slot) : Bool := s.bits == 0

def payload (t : NativeType) (s : Slot) : Nat :=
  s.bits.toNat % LittleEndian.bound t.size

/-- The integer that the slot holds at type `t`: the payload, in two's complement for a signed type. -/
def integer (t : NativeType) (s : Slot) : Int :=
  if t.isSigned && decide (LittleEndian.bound t.size ≤ 2 * s.payload t) then
    (s.payload t : Int) - (LittleEndian.bound t.size : Nat)
  else
    s.payload t

def truth (s : Slot) : Bool :=
  s.payload .bool != 0

/-- The word that a native caller expects for a small return value: sign- or zero-extended. -/
def widen (t : NativeType) (s : Slot) : Slot :=
  if t.isExtended then ofInt (s.integer t) else s

def narrow (t : NativeType) (s : Slot) : Slot :=
  if t.isExtended then ofNat (s.payload t) else s

/-- The value of type `t` as a whole word: integers and booleans extended, all else with zeros above. -/
def extend (t : NativeType) (s : Slot) : Slot :=
  if t.isExtended then s.widen t else ofNat (s.payload t)

def toBytes (t : NativeType) (s : Slot) : List UInt8 :=
  LittleEndian.encode t.size s.bits.toNat

def ofBytes (bytes : List UInt8) : Slot :=
  ofNat (LittleEndian.decode bytes)

def describe (s : Slot) : String :=
  "FfiValue(0x" ++ Hex.padded 16 s.bits.toNat ++ ")"

end Slot

def describeAddress (a : UInt64) : String :=
  "NativeAddress(0x" ++ Hex.ofNat a.toNat ++ ")"

end Ferry
