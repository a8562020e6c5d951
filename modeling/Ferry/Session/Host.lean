import Ferry.Script.Run
import Ferry.Session.Library

/-!
# The host of a session

What runs behind code addresses and behind callables while a session runs: scripts, functions of
libraries, and the behaviours of functions of the host. All of these may call into the engine again.
-/

namespace Ferry

def Value.copy (v : Value) : EngineM Value := do
  v.retain
  return v

mutual

def Literal.eval : Literal → SessionM Value
  | .undefined => return .undefined
  | .null => return .null
  | .boolean b => return .boolean b
  | .int i => return .int i
  | .uint u => return .uint u
  | .ofUInt64 u => return .ofUInt64 u
  | .number x => return .number x
  | .string s => return .string s
  | .array items => return .array (← Literal.evalAll items)
  | .pointer e => return .pointer (← e.evalAlone)
  | .boxed name => do
    match (← SessionM.world).structures.lookup name with
    | some b => Run.engine (Value.copy (.boxed b))
    | none => return .undefined
  | .function name => do
    match (← SessionM.world).callables.lookup name with
    | some f => Run.engine (Value.copy (.function f))
    | none => return .undefined

def Literal.evalAll : List Literal → SessionM (List Value)
  | [] => return []
  | l :: rest => do
    let v ← l.eval
    return v :: (← Literal.evalAll rest)

end

namespace HostCode

/-- The behaviour of the next invocation: they are used up one after the other, and the last one stays. -/
def next? (c : HostCode) : Option Behaviour :=
  c.behaviours[min c.invocations (c.behaviours.length - 1)]?

end HostCode

namespace Behaviour

/-- Carries a behaviour out on the arguments of the invocation, which stay with whoever invoked it. -/
def run (host : Host World) (arguments : List Value) :
    Behaviour → SessionM (Except InvokeFailure Value)
  | .give l => return .ok (← l.eval)
  | .argument i => return .ok (← Run.engine (arguments[i]?.getD .undefined).copy)
  | .arguments => return .ok (← Run.engine (Value.array arguments).copy)
  | .fail text => return .error (.error (.host text))
  | .panic text => return .error (.panic text)
  | .invoke name values => do
    match (← SessionM.world).functions.lookup name with
    | none => return .ok .undefined
    | some function =>
      match values with
      | none => callFunction host function none arguments
      | some literals =>
        let values ← Literal.evalAll literals
        let outcome ← callFunction host function none values
        (Value.releaseAll values : EngineM Unit)
        return outcome
  | .script s => do
    let _ ← s.run host []
    return .ok .undefined

end Behaviour

namespace World

def countInvocation (callable : Nat) (w : World) : World :=
  { w with
    hosts := w.hosts.map fun (id, c) =>
      if id = callable then (id, { c with invocations := c.invocations + 1 }) else (id, c) }

end World

namespace NativeCode

def run (host : Host World) (code : NativeCode) (arguments : List (NativeType × Slot)) :
    SessionM Slot := do
  let s := (← get).engine
  (EngineM.record (.entered code.name (arguments.map fun (t, slot) => s.viewNative t slot)) : EngineM Unit)
  code.script.run host arguments

end NativeCode

namespace HostCode

def run (host : Host World) (callable : Nat) (code : HostCode) (arguments : List Value) :
    SessionM (Except InvokeFailure Value) := do
  let s := (← get).engine
  (EngineM.record (.hosted code.name (s.viewValues arguments)) : EngineM Unit)
  SessionM.modifyWorld (World.countInvocation callable)
  match code.next? with
  | some behaviour => behaviour.run host arguments
  | none => return .ok .undefined

end HostCode

/-- The host in which calls nest no deeper than `depth`. Below that nothing happens any more. -/
def hostWithin : (depth : Nat) → Host World
  | 0 => ⟨fun _ _ => return .zero, fun _ _ => return .ok .undefined⟩
  | depth + 1 =>
    { enter := fun address arguments => do
        match LibraryFunction.at? address with
        | some f => Run.engine (f.run arguments)
        | none =>
          match (← SessionM.world).natives.lookup address with
          | some code => code.run (hostWithin depth) arguments
          | none => return .zero
      apply := fun callable arguments => do
        match (← SessionM.world).hosts.lookup callable with
        | some code => code.run (hostWithin depth) callable arguments
        | none => return .ok .undefined }

def nestingLimit : Nat := 1000

def sessionHost : Host World :=
  hostWithin nestingLimit

end Ferry
