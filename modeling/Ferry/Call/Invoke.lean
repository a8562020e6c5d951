import Ferry.Call.Host
import Ferry.Call.Reclaim

/-!
# Invocation

One call from beginning to end: check, build, run the native code, collect, reclaim. The frame is
reclaimed however the call ends.
-/

namespace Ferry

/-- The durable callbacks of a frame go to the registry before native code runs, since it may give them
back while it does. Yields the frame without them, and their tokens. -/
def Frame.handOverDurable (f : Frame) : EngineM (Frame × List UInt64) := do
  let durable := f.bindings.filterMap fun b => b.callback.filter (·.scope = .durable)
  durable.forM EngineM.registerDurable
  let without (b : Binding) : Binding := { b with callback := b.callback.filter (·.scope ≠ .durable) }
  return ({ f with bindings := f.bindings.map without }, durable.map (·.token))

def Frame.run (f : Frame) (act : FrameM α) : EngineM (Except InvokeFailure α × Frame) :=
  StateT.run act.run f

/-- Runs the native code of a frame that is built. A call that is refused gives the durable callbacks
back, since nobody else has their tokens. -/
def Frame.execute (host : Host World) (f : Frame) : Run World (Except InvokeFailure Unit × Frame) := do
  let (f, tokens) ← f.handOverDurable
  match ← f.plan.native.call host f.slots with
  | .ok returned => return (.ok (), { f with returned := some returned })
  | .error e =>
    tokens.forM fun token => (EngineM.notifyDestroyed token : Run World Unit)
    return (.error (.error (.call e)), f)

namespace Plan

def carryOut (host : Host World) (settings : InvokeSettings) (f : Frame) :
    Run World (Except InvokeFailure Value × Frame) := do
  if settings.logCalls then EngineM.log (.callStarted f.plan.name f.plan.slotCount)
  let (outcome, f) ← f.execute host
  match outcome with
  | .error e => return (.error e, f)
  | .ok () =>
    if settings.logCalls then EngineM.log (.callReturned f.plan.name)
    f.run FrameM.collect

def prepare (p : Plan) (receiver : Option Value) (arguments : List Value) :
    EngineM (Except InvokeFailure Frame) := do
  if arguments.length < p.inputs then return .error (.error (.notEnoughArguments p.inputs arguments.length))
  match ← Frame.fresh? p with
  | none => return .error (.error (.host ""))
  | some f =>
    let (built, f) ← f.run (FrameM.build receiver arguments)
    match built with
    | .error e =>
      f.reclaim
      return .error e
    | .ok () => return .ok f

/-- Carries out one call under the given settings. Without the check beforehand, a value that does not
convert is still found before native code runs. -/
def execute (host : Host World) (settings : InvokeSettings) (p : Plan) (receiver : Option Value)
    (arguments : List Value) : Run World (Except InvokeFailure Value) := do
  if settings.typeCheck then
    match p.typeCheck arguments with
    | .error e => return .error (.error e)
    | .ok () => pure ()
  match ← (p.prepare receiver arguments : Run World (Except InvokeFailure Frame)) with
  | .error e => return .error e
  | .ok f =>
    let (result, f) ← carryOut host settings f
    f.reclaim
    return result

end Plan

def functionPlan (function : Nat) : InvokeM Plan := do
  match (← getThe Engine).functions.lookup function with
  | none => throw (.host "")
  | some f =>
    match f.plan with
    | some plan => return plan
    | none =>
      let plan ← planFor f.source
      modifyThe Engine fun s =>
        { s with
          functions := s.functions.map fun (id, g) =>
            if id = function then (id, { g with plan := some plan }) else (id, g) }
      return plan

def callFunction (host : Host World) (function : Nat) (receiver : Option Value)
    (arguments : List Value) : Run World (Except InvokeFailure Value) := do
  match ← (functionPlan function).run with
  | .error e => return .error (.error e)
  | .ok plan =>
    let settings := (← get).engine.config.invoke
    let result ← plan.execute host settings receiver arguments
    match result with
    | .error (.error e) => EngineM.log (.callFailed plan.source.descriptor.symbol e.message)
    | .error (.panic _) | .ok _ => pure ()
    return result

def applyFunction (host : Host World) (function : Nat) (arguments : List Value) :
    Run World (Except InvokeFailure Value) := do
  match (← get).engine.functions.lookup function with
  | none => return .error (.error (.host ""))
  | some f =>
    if f.takesReceiver then
      match arguments with
      | receiver :: rest => callFunction host function (some receiver) rest
      | [] => return .error (.error (.missingReceiver f.name))
    else callFunction host function none arguments

def callCallable (host : Host World) (callable : Nat) (arguments : List Value) :
    Run World (Except InvokeFailure Value) := do
  match (← get).engine.callables.find? (·.id == callable) with
  | none => return .error (.error (.host ""))
  | some c =>
    match c.body with
    | .native function => applyFunction host function arguments
    | .host => host.apply callable arguments

end Ferry
