import Ferry.Marshal.Decode
import Ferry.Marshal.Encode

/-!
# Structures

Making structures and handles to them, and reading and writing their fields.
-/

namespace Ferry

namespace Boxed

def make? (layout : Layout) : EngineM (Option Boxed) := do
  match ← EngineM.allocate layout.size with
  | none => return none
  | some block => return some (← ownStructure layout block)

def borrow (b : Boxed) : Boxed :=
  { b with owned := false }

/-- A field of the given width at an offset is admitted. The end of the field is a machine word, so it
wraps around. -/
def admits (b : Boxed) (offset : UInt64) (width : Nat) : Bool :=
  decide ((offset.toNat + width) % 0x10000000000000000 ≤ b.layout.size)

def readBytes? (b : Boxed) (offset : UInt64) (width : Nat) : EngineM (Option (List UInt8)) := do
  if b.admits offset width then return some (← EngineM.readBytes (b.address + offset) width) else return none

/-- Replaces the bytes of a field at an offset, if the field is admitted, and tells whether it was. -/
def writeBytes? (b : Boxed) (offset : UInt64) (bytes : List UInt8) : EngineM Bool := do
  if b.admits offset bytes.length then
    EngineM.writeBytes (b.address + offset) bytes
    return true
  else return false

def read? (b : Boxed) (t : NativeType) (offset : UInt64) : EngineM (Option Slot) := do
  return (← b.readBytes? offset t.size).map Slot.ofBytes

def write? (b : Boxed) (t : NativeType) (offset : UInt64) (slot : Slot) : EngineM Bool :=
  b.writeBytes? offset (slot.toBytes t)

def same (a b : Boxed) : Bool :=
  a.address == b.address

def outOfBounds : String := "field out of bounds"

end Boxed

end Ferry
