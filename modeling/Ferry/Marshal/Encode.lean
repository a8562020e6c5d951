import Ferry.Marshal.Release
import Ferry.Text.Utf8

/-!
# Caller values to native values

Text and arrays are copied into blocks that the engine makes, so that native code may keep them. A
conversion that fails with an error leaves none of the blocks of a partly filled array behind.
-/

namespace Ferry

def allocateBlock (size : Nat) : EncodeM UInt64 := do
  match ← EngineM.allocate size with
  | some a => return a
  | none => throw (.error (.allocationFailed size))

def encodeInteger (v : Int) (type : Ty) : Except MarshalError Slot :=
  if type.native.holds v then .ok ((Slot.ofInt v).narrow type.native)
  else if type.native.isInteger then .error (.outOfRange v type)
  else .error (.typeMismatch type "integer")

def encodeText (s : String) : EncodeM Slot := do
  if s.toList.contains '\x00' then throw (.error .interiorZero)
  let bytes := Utf8.write s
  let block ← allocateBlock (bytes.length + 1)
  EngineM.writeBytes block bytes
  return .ofAddress block

def Value.double? : Value → Option Double
  | .number x => some x
  | .int i => some (.ofInt i.toInt)
  | .uint u => some (.ofInt u.toNat)
  | _ => none

/-- A value that is not null, in the representation of a type that is no array. -/
def encodeScalar (value : Value) (type : Ty) : EncodeM Slot :=
  match type, value with
  | .void, _ => return .zero
  | .boolean, .boolean b => return .ofNat b.toNat
  | .float, value =>
    match value.double? with
    | some x => return .ofNat x.toSingle.toNat
    | none => throw (.error (mismatch type value))
  | .double, value =>
    match value.double? with
    | some x => return ⟨x.bits⟩
    | none => throw (.error (mismatch type value))
  | .utf8, .string s => encodeText s
  | .pointer, .pointer a => return .ofAddress a
  | .pointer, .boxed b => return .ofAddress b.address
  | .struct layout, .boxed b =>
    if b.layout = layout then return .ofAddress b.address else throw (.error (mismatch type value))
  | .callback _, _ | .destroyNotify, _ => throw (.error (.unsupported type))
  | .boolean, _ | .utf8, _ | .pointer, _ | .struct _, _ | .array _ _, _ => throw (.error (mismatch type value))
  | type, value =>
    match value.integer? with
    | some v => .ofExcept (encodeInteger v type)
    | none => throw (.error (mismatch type value))

/-- Makes the block of a new array. The items are in memory already, so there is always room for that many of
them; the block as a whole may be larger. -/
def allocateArray (length : ArrayLength) (items size : Nat) : EncodeM UInt64 :=
  if items * size ≤ Memory.limit then
    match byteSize? (length.capacity items) size with
    | some bytes => allocateBlock bytes
    | none => throw .overflow
  else throw (.error (.allocationFailed (length.capacity items * size)))

/-- Stores the items of an array one after the other. If one does not convert, `undo` is told how many
were stored before the error goes on. -/
def encodeItems (encodeItem : Value → EncodeM Slot) (undo : Nat → EngineM Unit) (t : NativeType)
    (base : UInt64) : (index : Nat) → List Value → EncodeM Unit
  | _, [] => return ()
  | index, item :: rest => do
    let slot ← (encodeItem item).onError (undo index)
    EngineM.store t (elementAddress base t index) slot
    encodeItems encodeItem undo t base (index + 1) rest

def encodeArrayWith (encodeItem : Value → EncodeM Slot) (value : Value) (element : Ty)
    (length : ArrayLength) (nullable : Bool) : EncodeM (Slot × Nat) :=
  match value with
  | .array items => do
    let t := element.native
    let block ← allocateArray length items.length t.size
    let undo (stored : Nat) := freeArray element length (.ofAddress block) (some stored) .full .engine
    encodeItems encodeItem undo t block 0 items
    return (.ofAddress block, items.length)
  | value =>
    if value.isNullish then
      if nullable then return (.zero, 0) else throw (.error (.unexpectedNull (.array element length)))
    else throw (.error (mismatch (.array element length) value))

def encode (value : Value) : Ty → (nullable : Bool) → EncodeM Slot
  | .array element length, nullable => do
    let (slot, _) ← encodeArrayWith (fun item => encode item element false) value element length nullable
    return slot
  | type, nullable =>
    if value.isNullish && !type.isVoid then
      if type.isPointerLike then
        if nullable then return .zero else throw (.error (.unexpectedNull type))
      else throw (.error (mismatch type value))
    else encodeScalar value type

def encodeArray (value : Value) (element : Ty) (length : ArrayLength) (nullable : Bool) :
    EncodeM (Slot × Nat) :=
  encodeArrayWith (fun item => encode item element false) value element length nullable

def toNative (value : Value) (type : Ty) (nullable : Bool) : EncodeM Slot :=
  (encode value type nullable).onError
    (EngineM.count fun c => { c with marshalErrors := c.marshalErrors + 1 })

def encodeLength (count : Nat) (type : Ty) : Except MarshalError Slot :=
  encodeInteger count type

end Ferry
