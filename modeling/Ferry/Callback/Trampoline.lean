import Ferry.Call.Invoke

/-!
# Trampolines

What happens when native code calls the code of a callback: its arguments are converted, the callable
runs, and what it returns is converted back. Native code always gets an answer; after any failure it is
zero.
-/

namespace Ferry

namespace Callback

def argument (s : Signature) (slots : List Slot) (index : Nat) : Slot :=
  match s.params[index]? with
  | some p => Slot.ofBytes ((slots[index]?.getD .zero).toBytes p.type.native)
  | none => .zero

def decodeArgument (s : Signature) (slots : List Slot) (index : Nat) (p : Param) : MarshalM Value := do
  let slot := argument s slots index
  match p.type with
  | .array element length =>
    let known ←
      match length.parameter?.bind fun l => s.params[l]?.map (l, ·) with
      | some (l, holder) => some <$> decodeLength (argument s slots l) holder.type
      | none => pure none
    arrayFromNative element length slot known .nothing
  | type => fromNative type slot .nothing

def decodeArguments (s : Signature) (slots : List Slot) :
    List Param → (index : Nat) → (found : List Value) → InvokeM (List Value)
  | [], _, found => return found.reverse
  | p :: rest, index, found => do
    match ← (decodeArgument s slots index p).run with
    | .ok value => decodeArguments s slots rest (index + 1) (value :: found)
    | .error e =>
      Value.releaseAll found.reverse
      throw (.marshal p.name e)

def encodeReturn (s : Signature) (value : Value) : EncodeM Slot :=
  if s.result.isVoid then return .zero
  else
    let value :=
      match value with
      | .undefined => if s.mayReturnNull then .null else value
      | _ => value
    toNative value s.result s.mayReturnNull

def answer (host : Host World) (c : Callback) (slots : List Slot) :
    Run World (Except InvokeFailure Slot) := do
  let s := c.signature
  match ← (decodeArguments s slots s.params 0 []).run with
  | .error e => return .error (.error e)
  | .ok values =>
    let outcome ← callCallable host c.callable values
    let result ←
      match outcome with
      | .error e => pure (.error e)
      | .ok value =>
        let encoded ← (encodeReturn s value).run
        (value.release : EngineM Unit)
        let context := "return value of " ++ s.qualifiedName
        pure (encoded.mapError (Failure.map (.marshal context)))
    (Value.releaseAll values : EngineM Unit)
    return result

/-- What stands in the place of the result when native code gets its answer, given what stood there before. A
callback without a result leaves it as it is. -/
def trampolineInto (host : Host World) (c : Callback) (slots : List Slot) (place : Slot) : Run World Slot := do
  let s := c.signature
  let slot ←
    match ← c.answer host slots with
    | .ok slot => pure slot
    | .error (.error e) =>
      EngineM.log (.callbackFailed s.qualifiedName e.message)
      pure .zero
    | .error (.panic _) =>
      EngineM.log (.callbackPanicked s.qualifiedName)
      pure .zero
  return if s.result.isVoid then place else slot.widen s.result.native

def trampoline (host : Host World) (c : Callback) (slots : List Slot) : Run World Slot :=
  c.trampolineInto host slots .zero

end Callback

/-- Calls a code address that the engine gave out: a live trampoline or the destroy notifier. Any other
address does nothing. -/
def callCode (host : Host World) (address : UInt64) (slots : List Slot) : Run World Slot := do
  if address = Engine.notifier then
    EngineM.notifyDestroyed (slots.headD .zero).address
    return .zero
  match (← get).engine.callbacks.find? (·.code == address) with
  | some c => c.trampoline host slots
  | none => return .zero

end Ferry
