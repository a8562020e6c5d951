import Ferry.Boxed
import Ferry.Engine.Observation
import Ferry.Session.Names

/-!
# Running a session

Each step in order, with what the engine did meanwhile, and what is left when the session has dropped all
that it named.
-/

namespace Ferry

namespace StepM

/-- Loads a library, the first time that the session asks for it. -/
def loadLibrary (name : String) : StepM Unit := do
  if !(← world).libraries.contains name then
    match (← engine get).platform.load name with
    | .error e => throw (.load e)
    | .ok () =>
      engine (EngineM.count fun c => { c with libraries := c.libraries + 1 })
      modifyWorld fun w => { w with libraries := name :: w.libraries }

def entry (source : CodeSource) (code : UInt64) : StepM Entry :=
  match source with
  | .script => return .address code
  | .null => return .address 0
  | .dispatched => return .dispatched
  | .library name => do
    loadLibrary name
    return .symbol name

def define (name : String) (descriptor : Descriptor) (source : CodeSource) (script : Script)
    (tables : Option (List TableDraft)) : StepM Reply := do
  let code ← engine (EngineM.reserve 1)
  let entry ← entry source code
  let id ← engine EngineM.freshIdentity
  let source : DescriptorRef := ⟨id, { descriptor with entry }⟩
  modifyWorld fun w => { w with natives := (code, ⟨name, script⟩) :: w.natives }
  let f ←
    match tables with
    | none => pure (NativeFunction.bind source)
    | some drafts =>
      invoke (NativeFunction.makeVirtual source (.ofTables (drafts.map (TableDraft.complete code))))
  let function ← engine EngineM.freshIdentity
  engine (modify fun s => { s with functions := (function, f) :: s.functions })
  bindFunction name function
  return .defined f

def view (v : Value) : StepM ValueView :=
  return (← engine get).viewValue v

/-- Shows the result of a call, and keeps it under a name or drops it. -/
def finish (result : Value) (keep : Option String) : StepM Reply := do
  let shown ← view result
  match keep, result with
  | some name, .boxed b => bindStructure name b
  | some name, .pointer a => modifyWorld fun w => { w with saved := bindName name (.ofAddress a) w.saved }
  | _, _ => engine result.release
  return .value shown

/-- Runs a call on values that are dropped when it is over. -/
def withValues (receiver : Option Literal) (arguments : List Literal) (keep : Option String)
    (act : Option Value → List Value → SessionM (Except StepError Value)) : StepM Reply := do
  let receiver ← receiver.mapM fun l => (l.eval : StepM Value)
  let values ← (Literal.evalAll arguments : StepM (List Value))
  let outcome ← ExceptT.lift (act receiver values)
  let reply ←
    match outcome with
    | .ok result => Except.ok <$> finish result keep
    | .error e => pure (.error e)
  engine (Value.releaseAll (receiver.toList ++ values))
  MonadExcept.ofExcept reply

def call (function : String) (receiver : Option Literal) (arguments : List Literal)
    (keep : Option String) : StepM Reply := do
  let id ← named function (·.functions)
  withValues receiver arguments keep fun receiver values =>
    return (← callFunction sessionHost id receiver values).mapError .ofFailure

def apply (callable : String) (arguments : List Literal) (keep : Option String) : StepM Reply := do
  let f ← named callable (·.callables)
  withValues none arguments keep fun _ values =>
    return (← callCallable sessionHost f.id values).mapError .ofFailure

/-- Whether the plan of a descriptor stays the same. It is asked for twice, even if it cannot be made. -/
def planTwice (function : String) : StepM Reply := do
  let id ← named function (·.functions)
  match (← engine get).functions.lookup id with
  | none => throw (.unknownName function)
  | some f =>
    let first ← engine (planFor f.source).run
    let second ← engine (planFor f.source).run
    match first, second with
    | .ok first, .ok second => return .shared (first.id = second.id)
    | .error e, _ | _, .error e => throw (.invoke e)

def wrap (function callable : String) : StepM Reply := do
  let id ← named function (·.functions)
  match (← engine get).functions.lookup id with
  | none => throw (.unknownName function)
  | some f =>
    let c ← engine (EngineM.makeCallable f.name (.native id))
    modifyWorld fun w => { w with functions := unbindName function w.functions }
    bindCallable callable c
    return .name c.name

def host (name : String) (behaviours : List Behaviour) : StepM Reply := do
  let c ← engine (EngineM.makeCallable name .host)
  modifyWorld fun w =>
    { w with
      hosts := (c.id, ⟨name, behaviours, 0⟩) :: w.hosts
      remembered := bindName name c.id w.remembered }
  bindCallable name c
  return .nothing

def boxed (name : String) (layout : Layout) (bytes : List UInt8) : StepM Reply := do
  match ← engine (Boxed.make? layout) with
  | none => throw (.invoke (.marshal "" (.allocationFailed layout.size)))
  | some b =>
    engine (EngineM.writeBytes b.address bytes)
    bindStructure name b
    return .value (← view (.boxed b))

def cleanup (announced : Bool) : EngineM Unit := do
  if announced then EngineM.log .cleanupRequested
  EngineM.clearPlans
  EngineM.clearDurable
  EngineM.log .stateCleared

def configure (typeCheck cachePlans logCalls : Option Bool) : StepM Unit :=
  engine (modify fun s =>
    let i := s.config.invoke
    let i : InvokeSettings :=
      { typeCheck := typeCheck.getD i.typeCheck
        cachePlans := cachePlans.getD i.cachePlans
        logCalls := logCalls.getD i.logCalls }
    { s with config := { s.config with invoke := i } })

def restart (document : Option String) : StepM Reply :=
  match document.elim (.ok {}) Config.parse with
  | .error e => throw (.settings e)
  | .ok config => do
    engine (modify fun s => { s with config })
    return .initialized config

def carryOut (step : Step) : StepM Reply :=
  match step with
  | .define name descriptor source script tables => define name descriptor source script tables
  | .call function receiver arguments keep => call function receiver arguments keep
  | .plan function => do
    let id ← named function (·.functions)
    return .plan (← invoke (functionPlan id))
  | .planTwice function => planTwice function
  | .wrap function callable => wrap function callable
  | .apply callable arguments keep => apply callable arguments keep
  | .host name behaviours => host name behaviours
  | .alive name => do
    let known := (← world).remembered.lookup name
    let s ← engine get
    return .truth (known.any fun id => s.callables.any (·.id == id))
  | .callback name callable signature scope => do
    let f ← named callable (·.callables)
    let c ← invoke (EngineM.makeCallback f.id signature scope)
    bindCallback name c
    return .callback c
  | .boxed name layout bytes => boxed name layout bytes
  | .look name => do
    let b ← named name (·.structures)
    return .value (← view (.boxed b))
  | .drop name => do
    dropName name
    return .nothing
  | .script s => do
    let _ ← (s.run sessionHost [] : SessionM Slot)
    return .nothing
  | .notify token => do
    let a ← (token.evalAlone : SessionM UInt64)
    engine (EngineM.notifyDestroyed a)
    return .number (← engine get).durable.length
  | .counts => do
    let s ← engine get
    return .counts s.plans.length s.durable.length
  | .clearPlans => do
    engine EngineM.clearPlans
    return .nothing
  | .cleanup announced => do
    engine (cleanup announced)
    return .nothing
  | .configure typeCheck cachePlans logCalls => do
    configure typeCheck cachePlans logCalls
    return .nothing
  | .active => return .settings (← engine get).config
  | .restart document => restart document

end StepM

/-- An action of the machine, and what the engine did meanwhile. -/
def Run.observe (act : Run World α) : Run World (α × Observation) := do
  let before := (← get).engine.withoutEvents
  modify fun m => { m with engine := before }
  let a ← act
  let after := (← get).engine
  modify fun m => { m with engine := after.withoutEvents }
  return (a, before.observation after)

abbrev Answer := Except StepError Reply × Observation

structure Ending where
  plans : Nat
  durable : Nat
  live : List String
  outstanding : Int
deriving Repr, Inhabited

namespace SessionM

def dropAll : SessionM Unit := do
  let w ← world
  modifyWorld fun w => { w with callables := [], callbacks := [], structures := [], functions := [] }
  Run.engine do
    w.callables.forM fun (_, f) => f.drop
    w.callbacks.forM fun (_, c) => EngineM.destroyCallback c
    w.structures.forM fun (_, b) => b.drop
    w.functions.forM fun (_, f) => EngineM.releaseFunction f

def runSteps (steps : List Step) : SessionM (List Answer × Ending) := do
  let answers ← steps.mapM fun step => Run.observe (StepM.carryOut step).run
  dropAll
  let s := (← get).engine
  return (answers, {
    plans := s.plans.length
    durable := s.durable.length
    live := s.memory.engineLabels
    outstanding := s.counters.allocations - s.counters.releases })

end SessionM

def Machine.initial : Machine World :=
  ⟨.on Library.platform, .empty⟩

def Session.run (steps : List Step) : List Answer × Ending :=
  (SessionM.runSteps steps Machine.initial).1

end Ferry
