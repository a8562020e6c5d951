import Ferry.Engine.View

/-!
# Observation

What an action of the engine did: the events in order, and how much each counter grew.
-/

namespace Ferry

structure Observation where
  events : List Event
  growth : Counters
deriving Inhabited

namespace Counters

def growth (before after : Counters) : Counters :=
  { calls := after.calls - before.calls
    marshalErrors := after.marshalErrors - before.marshalErrors
    libraries := after.libraries - before.libraries
    callbacksCreated := after.callbacksCreated - before.callbacksCreated
    callbacksDestroyed := after.callbacksDestroyed - before.callbacksDestroyed
    allocations := after.allocations - before.allocations
    releases := after.releases - before.releases }

def entries (c : Counters) : List (String × Nat) :=
  [("calls", c.calls), ("marshal_errors", c.marshalErrors), ("libraries", c.libraries),
   ("cb_created", c.callbacksCreated), ("cb_destroyed", c.callbacksDestroyed),
   ("allocs", c.allocations), ("releases", c.releases)]

end Counters

namespace Engine

/-- What happened since an earlier state whose events were taken away. -/
def observation (before after : Engine) : Observation :=
  ⟨after.events.reverse, before.counters.growth after.counters⟩

def withoutEvents (s : Engine) : Engine :=
  { s with events := [] }

end Engine

def EngineM.observe (act : EngineM α) : EngineM (α × Observation) := do
  let before := (← get).withoutEvents
  set before
  let a ← act
  let after ← get
  set after.withoutEvents
  return (a, before.observation after)

end Ferry
