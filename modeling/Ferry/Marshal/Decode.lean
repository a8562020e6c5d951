import Ferry.Marshal.Release
import Ferry.Text.Utf8

/-!
# Native values to caller values

A structure that is handed over is copied into memory of the engine, which the new value owns; the
native block is released later. Any other structure is borrowed.
-/

namespace Ferry

def ownStructure (layout : Layout) (block : UInt64) : EngineM Boxed := do
  EngineM.own block
  return ⟨layout, block, true⟩

def copyStructure (layout : Layout) (a : UInt64) : MarshalM Boxed := do
  match ← EngineM.allocate layout.size with
  | none => throw (.allocationFailed layout.size)
  | some block =>
    EngineM.writeBytes block (← EngineM.readBytes a layout.size)
    ownStructure layout block

def decodeScalar? (type : Ty) (slot : Slot) : Option Value :=
  match type with
  | .void => some .undefined
  | .boolean => some (.boolean slot.truth)
  | .uint64 => some (.ofUInt64 slot.bits)
  | .float => some (.number (.ofSingle (UInt32.ofNat (slot.payload .f32))))
  | .double => some (.number ⟨slot.bits⟩)
  | type =>
    if type.native.isInteger then some (.int (Int64.ofInt (slot.integer type.native)))
    else if slot.isNull then some .null
    else none

/-- Reads the elements of an array one after the other. If one does not convert, those before it are
dropped. -/
def decodeItems (decodeItem : Slot → MarshalM Value) (t : NativeType) (base : UInt64) :
    (index count : Nat) → (found : List Value) → MarshalM (List Value)
  | _, 0, found => return found.reverse
  | index, count + 1, found => do
    let slot ← EngineM.load t (elementAddress base t index)
    let item ← tryCatch (decodeItem slot) fun e => do
      Value.releaseAll found.reverse
      throw e
    decodeItems decodeItem t base (index + 1) count (item :: found)

/-- Reads an array, of which the element count may be known. The null address is the empty array when
the count is known to be zero. -/
def decodeArrayWith (decodeItem : Slot → MarshalM Value) (element : Ty) (length : ArrayLength)
    (slot : Slot) (known : Option Nat) : MarshalM Value := do
  if slot.isNull then
    return if known = some 0 then .array [] else .null
  match (← getThe Engine).memory.arrayLength? element length slot.address known with
  | none => throw .unknownLength
  | some count => return .array (← decodeItems decodeItem element.native slot.address 0 count [])

def Transfer.ofElement : Transfer → Transfer
  | .everything => .everything
  | _ => .nothing

def fromNative : Ty → Slot → Transfer → MarshalM Value
  | .array element length, slot, transfer =>
    decodeArrayWith (fun s => fromNative element s transfer.ofElement) element length slot none
  | type, slot, transfer => do
    match decodeScalar? type slot with
    | some value => return value
    | none =>
      match type with
      | .utf8 => return .string (Utf8.read ((← getThe Engine).memory.text slot.address))
      | .struct layout =>
        if transfer = .everything then return .boxed (← copyStructure layout slot.address)
        else return .boxed ⟨layout, slot.address, false⟩
      | _ => return .pointer slot.address

def arrayFromNative (element : Ty) (length : ArrayLength) (slot : Slot) (known : Option Nat)
    (transfer : Transfer) : MarshalM Value :=
  decodeArrayWith (fun s => fromNative element s transfer.ofElement) element length slot known

def decodeLength (slot : Slot) (type : Ty) : MarshalM Nat := do
  let value ← fromNative type slot .nothing
  match value.integer? with
  | some v => if 0 ≤ v then return v.toNat else throw (.notALength value)
  | none => throw (.notALength value)

end Ferry
