import Ferry.Callback.Lifetime
import Ferry.Marshal.Decode
import Ferry.Marshal.Encode
import Ferry.Plan.Compile

/-!
# Call frames

A frame holds everything that belongs to one call: the argument slots, the cells that native code
writes through, what the engine made from the arguments, the element counts of arrays, callbacks, and
the buffers that the caller provides. Each parameter has one `Binding`.
-/

namespace Ferry

structure Binding where
  slot : Slot := .zero
  engineMade : Slot := .zero
  count : Option Nat := none
  callback : Option Callback := none
  buffer : Option UInt64 := none
  built : Bool := false
deriving Inhabited

structure Frame where
  plan : Plan
  receiver : Slot
  bindings : List Binding
  cells : UInt64
  failure : UInt64
  returned : Option Slot
  returnedCount : Option Nat
deriving Inhabited

namespace Frame

def empty (plan : Plan) (cells failure : UInt64) : Frame :=
  { plan, cells, failure, receiver := .zero, returned := none, returnedCount := none
    bindings := plan.parameters.map fun _ => {} }

/-- A frame in which nothing is built, if there is room for its working storage. -/
def fresh? (plan : Plan) : EngineM (Option Frame) := do
  let cells ← EngineM.reserve (8 * plan.parameters.length)
  let failure ← EngineM.reserve 8
  if cells = 0 || failure = 0 then
    EngineM.unreserve cells
    EngineM.unreserve failure
    return none
  return some (empty plan cells failure)

def binding (f : Frame) (i : Nat) : Binding :=
  f.bindings[i]?.getD {}

def update (f : Frame) (i : Nat) (change : Binding → Binding) : Frame :=
  { f with bindings := f.bindings.modify i change }

def cell (f : Frame) (i : Nat) : UInt64 :=
  f.cells + UInt64.ofNat (8 * i)

def slots (f : Frame) : List Slot :=
  (if f.plan.isMethod then [f.receiver] else []) ++ f.bindings.map (·.slot) ++
    (if f.plan.canThrow then [.ofAddress f.failure] else [])

def loadCell (f : Frame) (i : Nat) : EngineM Slot :=
  EngineM.load .u64 (f.cell i)

def storeCell (f : Frame) (i : Nat) (slot : Slot) : EngineM Unit :=
  EngineM.store .u64 (f.cell i) slot

/-- What a parameter holds now, looking into the cell of one that is passed by reference. -/
def current (f : Frame) (p : Parameter) : EngineM Slot :=
  if p.direction.isOut && !p.callerAllocates then f.loadCell p.index
  else return (f.binding p.index).slot

def currentLength (f : Frame) (index : Nat) : MarshalM Nat :=
  match f.plan.parameter? index with
  | none => throw .unknownLength
  | some p => do
    let slot ← f.current p
    decodeLength slot p.type

end Frame

/-- An action on the frame of a call. What it did before it failed stays in the frame. -/
abbrev FrameM := ExceptT InvokeFailure (StateT Frame EngineM)

namespace FrameM

/-- A conversion inside of a call; its failure becomes one of the call. -/
def convert (blame : ε → InvokeFailure) (act : ExceptT ε EngineM α) : FrameM α := do
  let r ← act.run
  match r with
  | .ok a => return a
  | .error e => throw (blame e)

def update (i : Nat) (change : Binding → Binding) : FrameM Unit :=
  modifyThe Frame (·.update i change)

def setSlot (i : Nat) (slot : Slot) : FrameM Unit :=
  update i fun b => { b with slot }

def passCell (i : Nat) : FrameM Unit := do
  let f ← getThe Frame
  setSlot i (.ofAddress (f.cell i))

end FrameM

end Ferry
