import Ferry.Call.Collect

/-!
# Reclaiming a frame

What remains of a call when its frame ends, whether it succeeded, failed, or never came to its native
code. Only what was built is released, each parameter at most once, in the order of declaration.
-/

namespace Ferry

namespace Frame

/-- What there is to release for a parameter. Native code that was handed everything left a value of
its own; otherwise what the engine made remains. -/
def remainder (f : Frame) (p : Parameter) : EngineM (Slot × ReleaseDepth × Origin) := do
  let b := f.binding p.index
  match p.direction, f.returned with
  | .input, none => return (b.slot, .full, .engine)
  | .both, none => return (b.engineMade, .full, .engine)
  | .input, some _ => return (b.slot, .forTransfer .input p.transfer, .engine)
  | .output, _ => return (← f.loadCell p.index, .forTransfer .output p.transfer, .native)
  | .both, some _ =>
    if p.transfer = .everything then return (← f.loadCell p.index, .full, .native)
    else return (b.engineMade, .forTransfer .input p.transfer, .engine)

/-- A buffer that the caller provides goes with its block; only elements that were handed over are
released before. -/
def releaseBufferContents (f : Frame) (p : Parameter) (element : Ty) (length : ArrayLength)
    (count : Option Nat) : EngineM Unit :=
  if ReleaseDepth.forTransfer .output p.transfer = .full then
    freeArray element length (f.binding p.index).slot count .elements .native
  else pure ()

def releaseValue (f : Frame) (p : Parameter) : EngineM Unit := do
  if p.direction = .output && p.callerAllocates then
    match p.type with
    | .array element length => f.releaseBufferContents p element length (f.binding p.index).count
    | _ => return
  else
    let (slot, depth, origin) ← f.remainder p
    freeValue p.type slot depth origin

def currentLength? (f : Frame) (index : Nat) : EngineM (Option Nat) := do
  return (← (f.currentLength index).run).toOption

def releaseArray (f : Frame) (p : Parameter) (length : Nat) : EngineM Unit :=
  match p.type with
  | .array element arrayLength => do
    let count ←
      match (f.binding p.index).count with
      | some count => pure (some count)
      | none => f.currentLength? length
    if p.direction = .output && p.callerAllocates then
      f.releaseBufferContents p element arrayLength count
    else
      let (slot, depth, origin) ← f.remainder p
      freeArray element arrayLength slot count depth origin
  | _ => pure ()

def releaseParameter (f : Frame) (p : Parameter) : EngineM Unit :=
  if (f.binding p.index).built then
    match p.handling with
    | .hidden => pure ()
    | .callback .. => (f.binding p.index).callback.forM EngineM.destroyCallback
    | .array length => f.releaseArray p length
    | .normal => f.releaseValue p
  else pure ()

def releaseReturn (f : Frame) (slot : Slot) : EngineM Unit := do
  let s := f.plan.signature
  let depth := ReleaseDepth.forTransfer .output s.resultTransfer
  match s.result with
  | .array element length =>
    let count ←
      match f.returnedCount, f.plan.resultLength with
      | some count, _ => pure (some count)
      | none, some index => f.currentLength? index
      | none, none => pure none
    freeArray element length slot count depth .native
  | type => freeValue type slot depth .native

def reclaim (f : Frame) : EngineM Unit := do
  EngineM.freeFailure (← EngineM.load .pointer f.failure).address
  f.plan.parameters.forM f.releaseParameter
  f.bindings.forM fun b => b.buffer.forM fun block => EngineM.release block true
  f.returned.forM f.releaseReturn
  EngineM.unreserve f.cells
  EngineM.unreserve f.failure

end Frame

end Ferry
