import Ferry.Callback.Trampoline
import Ferry.Engine.View
import Ferry.Session.Basic

/-!
# Running scripts

The actions of a script in order, on the memory of the engine. A script calls back into the engine
through code addresses.
-/

namespace Ferry

structure ScriptState where
  arguments : List (NativeType × Slot)
  indices : List Nat
  result : Slot
deriving Inhabited

abbrev ScriptM := StateT ScriptState SessionM

namespace ScriptM

def lift (act : EngineM α) : ScriptM α :=
  StateT.lift (Run.engine act)

def record (e : Event) : ScriptM Unit :=
  lift (EngineM.record e)

def machine : ScriptM (Machine World) :=
  StateT.lift get

def view (t : NativeType) (slot : Slot) : ScriptM NativeView :=
  return (← machine).engine.viewNative t slot

end ScriptM

def Expr.eval : Expr → ScriptM UInt64
  | .literal i => return UInt64.ofInt i
  | .argument i => do
    match (← getThe ScriptState).arguments[i]? with
    | some (t, slot) => return (slot.extend t).bits
    | none => return 0
  | .index => return UInt64.ofNat ((← getThe ScriptState).indices.headD 0)
  | .load t a => do
    let slot ← ScriptM.lift (EngineM.load t (← a.eval))
    return (slot.extend t).bits
  | .add a b => return (← a.eval) + (← b.eval)
  | .sub a b => return (← a.eval) - (← b.eval)
  | .mul a b => return (← a.eval) * (← b.eval)
  | .less a b => return if (← a.eval).toInt64 < (← b.eval).toInt64 then 1 else 0
  | .equal a b => return if (← a.eval) = (← b.eval) then 1 else 0
  | .block name => return ((← ScriptM.machine).world.blocks.lookup name).getD 0
  | .saved name => return (((← ScriptM.machine).world.saved.lookup name).map (·.bits)).getD 0
  | .code name => return (((← ScriptM.machine).world.callbacks.lookup name).map (·.code)).getD 0
  | .token name => return (((← ScriptM.machine).world.callbacks.lookup name).map (·.token)).getD 0
  | .boxed name => return (((← ScriptM.machine).world.structures.lookup name).map (·.address)).getD 0
  | .notifier => return Engine.notifier

namespace ScriptM

/-- Makes a block for a script. Without room the name stands for the null address. -/
def allocate (name : String) (size : Nat) (bytes : List UInt8) : ScriptM Unit := do
  let m ← machine
  match m.engine.memory.allocate? (.native name) size with
  | none => StateT.lift (SessionM.modifyWorld fun w => { w with blocks := bindName name 0 w.blocks })
  | some (a, memory) =>
    let world := { m.world with blocks := bindName name a m.world.blocks }
    StateT.lift (set (Machine.mk { m.engine with memory := memory.write a bytes } world))

def save (name : String) (slot : Slot) : ScriptM Unit :=
  StateT.lift (SessionM.modifyWorld fun w => { w with saved := bindName name slot w.saved })

/-- The most often that a loop runs. -/
def loopLimit : Nat := 1000

/-- Runs an action `count` times, each time with the number of runs before it. -/
def iterate (act : ScriptM Unit) : (index count : Nat) → ScriptM Unit
  | _, 0 => return ()
  | index, count + 1 => do
    modifyThe ScriptState fun s => { s with indices := index :: s.indices }
    act
    modifyThe ScriptState fun s => { s with indices := s.indices.tail }
    iterate act (index + 1) count

def evalArguments : List (NativeType × Expr) → ScriptM (List Slot)
  | [] => return []
  | (t, e) :: rest => do
    let v ← e.eval
    return (Slot.mk v).extend t :: (← evalArguments rest)

end ScriptM

mutual

def Action.run (host : Host World) : Action → ScriptM Unit
  | .readValue t a => do
    let slot ← ScriptM.lift (EngineM.load t (← a.eval))
    ScriptM.record (.readValue (← ScriptM.view t slot))
  | .readText a => do
    let a ← a.eval
    let bytes := (← ScriptM.machine).engine.memory.text a
    ScriptM.record (.readText (if a = 0 then none else some bytes))
  | .readBytes a n => do
    let a ← a.eval
    let n ← n.eval
    ScriptM.record (.readBytes (← ScriptM.lift (EngineM.readBytes a n.toNat)))
  | .write t a v => do
    let a ← a.eval
    let v ← v.eval
    ScriptM.lift (EngineM.store t a ⟨v⟩)
  | .allocate name (.bytes bytes) => ScriptM.allocate name bytes.length bytes
  | .allocate name (.zeros size) => do
    ScriptM.allocate name (← size.eval).toNat []
  | .free a => do
    ScriptM.lift (EngineM.unreserve (← a.eval))
  | .giveBack v => do
    let v ← v.eval
    modifyThe ScriptState fun s => { s with result := ⟨v⟩ }
  | .fail a domain code text => do
    let a ← a.eval
    let record ← ScriptM.lift (EngineM.makeFailure domain code (text.getD []))
    ScriptM.lift (EngineM.store .pointer a (.ofAddress record))
  | .withdraw a => do
    let a ← a.eval
    let record ← ScriptM.lift (EngineM.load .pointer a)
    ScriptM.lift (EngineM.freeFailure record.address)
    ScriptM.lift (EngineM.store .pointer a .zero)
  | .save name v => do
    ScriptM.save name ⟨← v.eval⟩
  | .present t v => do
    let v ← v.eval
    ScriptM.record (.shown (← ScriptM.view t ⟨v⟩))
  | .call code arguments result name => do
    let code ← code.eval
    let slots ← ScriptM.evalArguments arguments
    let slot ← StateT.lift (callCode host code slots)
    ScriptM.record (.returned (← ScriptM.view result slot))
    match name with
    | some name => ScriptM.save name (slot.extend result)
    | none => return ()
  | .loop n body => do
    let n ← n.eval
    ScriptM.iterate (Script.runAll host body) 0 (min n.toNat ScriptM.loopLimit)
  | .branch c yes no => do
    if (← c.eval) ≠ 0 then Script.runAll host yes else Script.runAll host no

def Script.runAll (host : Host World) : List Action → ScriptM Unit
  | [] => return ()
  | a :: rest => do
    a.run host
    Script.runAll host rest

end

def Script.run (host : Host World) (script : Script) (arguments : List (NativeType × Slot)) :
    SessionM Slot := do
  let (_, s) ← StateT.run (Script.runAll host script) ⟨arguments, [], .zero⟩
  return s.result

/-- What an expression gives outside of any native call. -/
def Expr.evalAlone (e : Expr) : SessionM UInt64 :=
  StateT.run' e.eval ⟨[], [], .zero⟩

end Ferry
