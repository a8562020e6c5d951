import Ferry.Engine.Dump
import Ferry.Marshal.Decode
import Ferry.Marshal.Encode
import Ferry.Session.Run

/-!
# Conversions there and back

One value on its way to a native representation, back, and the release of that representation, with each
stage marked among the events.
-/

namespace Ferry

structure Conversion where
  type : Ty
  value : Literal
  nullable : Bool
  transfer : Transfer
  depth : ReleaseDepth
  origin : Origin
  sized : Bool
  length : Option Nat
  structures : List (String × Layout × List UInt8)
deriving Inhabited

structure Converted where
  native : NativeDump
  back : Except MarshalError ValueView
  count : Option Nat
deriving Inhabited

namespace Conversion

/-- The element and the length of an array whose count is handed on. -/
def array? (c : Conversion) : Option (Ty × ArrayLength) :=
  match c.type, c.sized with
  | .array element length, true => some (element, length)
  | _, _ => none

def encode (c : Conversion) (value : Value) : EncodeM (Slot × Option Nat) :=
  match c.array? with
  | some (element, length) => do
    let (slot, count) ← encodeArray value element length c.nullable
    return (slot, some count)
  | none => do
    let slot ← toNative value c.type c.nullable
    return (slot, none)

def handedOn (c : Conversion) (count : Option Nat) : Option Nat :=
  c.length <|> count

def decode (c : Conversion) (slot : Slot) (count : Option Nat) : MarshalM Value :=
  match c.array? with
  | some (element, length) => arrayFromNative element length slot (c.handedOn count) c.transfer
  | none => fromNative c.type slot c.transfer

def free (c : Conversion) (slot : Slot) (count : Option Nat) : EngineM Unit :=
  match c.array? with
  | some (element, length) => freeArray element length slot (c.handedOn count) c.depth c.origin
  | none => freeValue c.type slot c.depth c.origin

/-- The conversion there and back. An error stops it, and so does a panic, which leaves nothing to show. -/
def convert (c : Conversion) (value : Value) : EngineM (Except (Failure MarshalError) Converted) := do
  EngineM.record (.phase .toNative)
  match ← (c.encode value).run with
  | .error failure => return .error failure
  | .ok (slot, count) =>
    let native := (← get).dump c.type slot
    EngineM.record (.phase .fromNative)
    let back ←
      match ← (c.decode slot count).run with
      | .error e => pure (.error e)
      | .ok value =>
        let shown := (← get).viewValue value
        value.release
        pure (.ok shown)
    EngineM.record (.phase .free)
    c.free slot count
    return .ok ⟨native, back, count⟩

/-- What came of a conversion, whether the value was expected to convert, and what the engine did. -/
structure Outcome where
  expected : Bool
  result : Except MarshalError Converted
  seen : Observation
deriving Inhabited

def runIn (c : Conversion) : SessionM (Except String Outcome) := do
  let _ ← c.structures.mapM fun (name, layout, bytes) => (StepM.boxed name layout bytes).run
  let value ← c.value.eval
  let expected := canConvert value c.type c.nullable
  let (result, seen) ← Run.observe (Run.engine (c.convert value))
  match result with
  | .ok converted => return .ok ⟨expected, .ok converted, seen⟩
  | .error (.error e) => return .ok ⟨expected, .error e, seen⟩
  | .error (.panic text) => return .error text

def run? (c : Conversion) : Except String Outcome :=
  (c.runIn Machine.initial).1

def run (c : Conversion) : Outcome :=
  c.run?.toOption.getD default

end Conversion

def Literal.evalAlone (l : Literal) : Value :=
  (l.eval Machine.initial).1

end Ferry
