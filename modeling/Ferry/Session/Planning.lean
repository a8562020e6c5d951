import Ferry.Session.Run

/-!
# Plans on their own

A plan for one descriptor, and what its check says about lists of arguments.
-/

namespace Ferry

structure Planning where
  descriptor : Descriptor
  source : CodeSource
  isVirtual : Bool
  arguments : List (List Literal)
deriving Inhabited

namespace Planning

def compile (p : Planning) : StepM Plan := do
  let code ← StepM.engine (EngineM.reserve 1)
  let entry ← StepM.entry p.source code
  let id ← StepM.engine EngineM.freshIdentity
  let source : DescriptorRef := ⟨id, { p.descriptor with entry }⟩
  StepM.invoke (if p.isVirtual then Plan.compileVirtual source code else Plan.compile source)

/-- The plan with the outcome of each check, and what the engine did. -/
def runIn (p : Planning) :
    SessionM (Except StepError (Plan × List (Except InvokeError Unit)) × Observation) := do
  let (outcome, seen) ← Run.observe p.compile.run
  match outcome with
  | .error e => return (.error e, seen)
  | .ok plan =>
    let checks ← p.arguments.mapM fun literals => do
      return plan.typeCheck (← Literal.evalAll literals)
    return (.ok (plan, checks), seen)

def run (p : Planning) : Except StepError (Plan × List (Except InvokeError Unit)) × Observation :=
  (p.runIn Machine.initial).1

end Planning

end Ferry
