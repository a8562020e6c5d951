import Ferry.Call.Failure

/-!
# Collecting results

The outputs of a call that native code has completed: the return value first, then the outputs of the
visible parameters in the order of declaration. A reported failure wins over all of them.
-/

namespace Ferry

def InvokeFailure.ofResult (context : String) (cause : MarshalError) : InvokeFailure :=
  .error (.marshal context cause)

namespace FrameM

def collectReturn : FrameM Value := do
  let f ← getThe Frame
  let s := f.plan.signature
  let slot := f.returned.getD .zero
  match s.result, f.plan.resultLength with
  | .array element length, some index =>
    let count ← convert (.ofResult "return value") (f.currentLength index)
    modifyThe Frame fun f => { f with returnedCount := some count }
    convert (.ofResult "return value") (arrayFromNative element length slot (some count) s.resultTransfer)
  | type, _ => convert (.ofResult "return value") (fromNative type slot s.resultTransfer)

/-- The element count of an array output. What was settled when the frame was built stays settled for a
parameter that is passed both ways. -/
def settledCount (p : Parameter) (length : Nat) : FrameM Nat := do
  let f ← getThe Frame
  match p.direction, (f.binding p.index).count with
  | .both, some count => return count
  | _, _ =>
    let count ← convert (.ofResult p.name) (f.currentLength length)
    settle p.index count
    return count

def collectArray (p : Parameter) (length : Nat) : FrameM Value :=
  match p.type with
  | .array element arrayLength => do
    let count ← settledCount p length
    let f ← getThe Frame
    let slot ←
      if p.callerAllocates then pure (f.binding p.index).slot
      else f.loadCell p.index
    convert (.ofResult p.name) (arrayFromNative element arrayLength slot (some count) p.transfer)
  | type => throw (.error (.marshal p.name (.unsupported type)))

def collectBuffer (p : Parameter) : FrameM Value := do
  let f ← getThe Frame
  let b := f.binding p.index
  match p.type with
  | .struct layout =>
    match b.buffer with
    | some block =>
      update p.index fun b => { b with buffer := none }
      return .boxed (← ownStructure layout block)
    | none => return .null
  | .array element length =>
    convert (.ofResult p.name) (arrayFromNative element length b.slot b.count p.transfer)
  | type =>
    let slot ← EngineM.load type.native b.slot.address
    convert (.ofResult p.name) (fromNative type slot p.transfer)

def collectValue (p : Parameter) : FrameM Value := do
  if p.callerAllocates then collectBuffer p
  else
    let f ← getThe Frame
    let slot ← f.loadCell p.index
    convert (.ofResult p.name) (fromNative p.type slot p.transfer)

def collectParameter (p : Parameter) : FrameM (Option Value) := do
  if !p.direction.isOut then return none
  match p.handling with
  | .hidden | .callback .. => return none
  | .array length => return some (← collectArray p length)
  | .normal => return some (← collectValue p)

/-- The outputs of the parameters, after those found already. If one does not convert, all of them are
dropped. -/
def collectParameters : List Parameter → (found : List Value) → FrameM (List Value)
  | [], found => return found.reverse
  | p :: rest, found => do
    let output ← tryCatch (collectParameter p) fun e => do
      Value.releaseAll found.reverse
      throw e
    collectParameters rest (output.toList ++ found)

/-- A call without outputs yields nothing, one with a single output yields it, and one with several
yields an array. -/
def composeOutputs : List Value → Value
  | [] => .undefined
  | [v] => v
  | outputs => .array outputs

def collect : FrameM Value := do
  match ← takeFailure with
  | some failure => throw (.error (.nativeReported failure))
  | none =>
    let s := (← getThe Frame).plan.signature
    let first ← if s.skipsResult then pure [] else List.singleton <$> collectReturn
    return composeOutputs (← collectParameters (← getThe Frame).plan.parameters first)

end FrameM

end Ferry
