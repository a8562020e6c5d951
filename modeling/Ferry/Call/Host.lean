import Ferry.Engine.State

/-!
# The outside of the engine

Native code and the callables of the host are not part of the engine. A `Host` says what they do: each
is an action on the whole machine, which is the engine together with a world of its own, so that both
may call back into the engine.
-/

namespace Ferry

structure Machine (World : Type) where
  engine : Engine
  world : World

abbrev Run (World : Type) := StateM (Machine World)

structure Host (World : Type) where
  enter : (address : UInt64) → (arguments : List (NativeType × Slot)) → Run World Slot
  apply : (callable : Nat) → (arguments : List Value) → Run World (Except InvokeFailure Value)

namespace Run

def engine (act : EngineM α) : Run World α :=
  modifyGet fun m =>
    let (a, engine) := act m.engine
    (a, { m with engine })

instance : MonadLift EngineM (Run World) := ⟨Run.engine⟩

end Run

/-- Calls the native code of a signature with one slot for each of its arguments. -/
def NativeSignature.call (host : Host World) (s : NativeSignature) (slots : List Slot) :
    Run World (Except CallError Slot) := do
  if slots.length ≠ s.arguments.length then
    return .error (.argumentCount s.arguments.length slots.length)
  if s.address = 0 then return .error .nullAddress
  Run.engine (EngineM.count fun c => { c with calls := c.calls + 1 })
  let result ← host.enter s.address (s.arguments.zip slots)
  return .ok (if s.result = .void then .zero else result.narrow s.result)

end Ferry
