import Ferry.Session.Host
import Ferry.Session.Step

/-!
# Names of a session

Putting things under names and dropping them. A name that is given again drops what it stood for, after the
new thing is there.
-/

namespace Ferry

abbrev StepM := ExceptT StepError SessionM

namespace StepM

/-- Work of the engine, which does not fail. -/
def engine (act : EngineM α) : StepM α :=
  ExceptT.lift (Run.engine act)

/-- Work of the engine that may fail as an invocation does. -/
def invoke (act : InvokeM α) : StepM α := do
  match ← engine act.run with
  | .ok a => return a
  | .error e => throw (.invoke e)

def world : StepM World :=
  ExceptT.lift SessionM.world

def modifyWorld (f : World → World) : StepM Unit :=
  ExceptT.lift (SessionM.modifyWorld f)

def named (name : String) (all : World → List (String × α)) : StepM α := do
  match (all (← world)).lookup name with
  | some a => return a
  | none => throw (.unknownName name)

def replace (old : Option α) (drop : α → EngineM Unit) : StepM Unit :=
  match old with
  | some a => engine (drop a)
  | none => return ()

end StepM

def Boxed.drop (b : Boxed) : EngineM Unit := (Value.boxed b).release

def FunctionRef.drop (f : FunctionRef) : EngineM Unit := EngineM.letGo f.id

namespace StepM

def bindStructure (name : String) (b : Boxed) : StepM Unit := do
  let old := (← world).structures.lookup name
  modifyWorld fun w => { w with structures := bindName name b w.structures }
  replace old Boxed.drop

def bindCallable (name : String) (f : FunctionRef) : StepM Unit := do
  let old := (← world).callables.lookup name
  modifyWorld fun w => { w with callables := bindName name f w.callables }
  replace old FunctionRef.drop

/-- Puts a callback under a name. What it replaces is destroyed. -/
def bindCallback (name : String) (c : Callback) : StepM Unit := do
  let old := (← world).callbacks.lookup name
  modifyWorld fun w => { w with callbacks := bindName name c w.callbacks }
  replace old EngineM.destroyCallback

def bindFunction (name : String) (function : Nat) : StepM Unit := do
  let old := (← world).functions.lookup name
  modifyWorld fun w => { w with functions := bindName name function w.functions }
  replace old EngineM.releaseFunction

def dropName (name : String) : StepM Unit := do
  let w ← world
  modifyWorld fun w =>
    { w with
      callables := unbindName name w.callables
      callbacks := unbindName name w.callbacks
      structures := unbindName name w.structures
      functions := unbindName name w.functions }
  replace (w.callables.lookup name) FunctionRef.drop
  replace (w.callbacks.lookup name) EngineM.destroyCallback
  replace (w.structures.lookup name) Boxed.drop
  replace (w.functions.lookup name) EngineM.releaseFunction

end StepM

end Ferry
