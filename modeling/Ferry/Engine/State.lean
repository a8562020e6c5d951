import Ferry.Callback.Basic
import Ferry.Engine.Platform
import Ferry.Memory.Basic
import Ferry.Settings.Config
import Ferry.Trace.Event

/-!
# Engine state

Everything that the engine keeps between and during calls: native memory, the structures that callers
own, callables, live callbacks and the registry of durable ones, compiled plans, settings, counters,
and the events so far.
-/

namespace Ferry

structure Counters where
  calls : Nat := 0
  marshalErrors : Nat := 0
  libraries : Nat := 0
  callbacksCreated : Nat := 0
  callbacksDestroyed : Nat := 0
  allocations : Nat := 0
  releases : Nat := 0
deriving DecidableEq, Repr, Inhabited

structure Engine where
  platform : Platform
  memory : Memory
  counters : Counters
  /-- Latest first. -/
  events : List Event
  /-- For each structure that callers own, how many handles do. -/
  owners : List (UInt64 × Nat)
  callables : List Callable
  functions : List (Nat × NativeFunction)
  callbacks : List Callback
  durable : List UInt64
  plans : List (Nat × Plan)
  config : Config
  nextCallback : Nat
  nextIdentity : Nat
deriving Inhabited

namespace Engine

def on (platform : Platform) : Engine :=
  { platform, memory := .empty, counters := {}, events := [], owners := [], callables := [], functions := []
    callbacks := [], durable := [], plans := [], config := {}, nextCallback := 0, nextIdentity := 0 }

def initial : Engine := .on .bare

def notifier : UInt64 := 0x5d0c3a001000

end Engine

abbrev EngineM := StateM Engine

abbrev InvokeM := ExceptT InvokeError EngineM

namespace EngineM

def record (e : Event) : EngineM Unit :=
  modify fun s => { s with events := e :: s.events }

def log (entry : LogEntry) : EngineM Unit :=
  record (.logged entry)

def count (f : Counters → Counters) : EngineM Unit :=
  modify fun s => { s with counters := f s.counters }

def freshIdentity : EngineM Nat :=
  modifyGet fun s => (s.nextIdentity, { s with nextIdentity := s.nextIdentity + 1 })

def allocate (size : Nat) : EngineM (Option UInt64) := do
  let s ← get
  match s.memory.allocateEngine? size with
  | none => return none
  | some (a, memory) =>
    set { s with memory }
    count fun c => { c with allocations := c.allocations + 1 }
    record (.allocated a (.engine s.memory.engineBlocks) size)
    return some a

/-- Makes working storage, which nobody observes. Without room there is none, at address zero. -/
def reserve (size : Nat) : EngineM UInt64 :=
  modifyGet fun s =>
    match s.memory.allocate? .hidden size with
    | some (a, memory) => (a, { s with memory })
    | none => (0, s)

def unreserve (a : UInt64) : EngineM Unit :=
  modify fun s => { s with memory := s.memory.release a }

/-- Releases what is at an address. Only what the engine made counts as released. -/
def release (a : UInt64) (counted : Bool) : EngineM Unit := do
  if counted then count fun c => { c with releases := c.releases + 1 }
  let s ← get
  record (.released a ((s.memory.block? a).map (·.label)))
  modify fun s => { s with memory := s.memory.release a }

def load (t : NativeType) (a : UInt64) : EngineM Slot :=
  return (← get).memory.load t a

def store (t : NativeType) (a : UInt64) (slot : Slot) : EngineM Unit :=
  modify fun s => { s with memory := s.memory.store t a slot }

def readBytes (a : UInt64) (n : Nat) : EngineM (List UInt8) :=
  return (← get).memory.read a n

def writeBytes (a : UInt64) (bytes : List UInt8) : EngineM Unit :=
  modify fun s => { s with memory := s.memory.write a bytes }

end EngineM

end Ferry
