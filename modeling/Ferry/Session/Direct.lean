import Ferry.Session.Run

/-!
# Direct calls

Calling native code by its signature alone, on integers of 32 bits and without a plan.
-/

namespace Ferry

inductive Routine where
  | fortyTwo
  | difference
  | null (arity : Nat)
deriving DecidableEq, Repr, Inhabited

namespace Routine

def arity : Routine → Nat
  | fortyTwo => 0
  | difference => 2
  | null n => n

def script : Routine → Script
  | fortyTwo => [.giveBack (.literal 42)]
  | difference => [.giveBack (.sub (.argument 0) (.argument 1))]
  | null _ => []

/-- The arguments and the result are integers of 32 bits. -/
def signature (r : Routine) : NativeSignature :=
  { address := match r with
      | null _ => 0
      | _ => 0x5d0c3a003000
    result := .i32
    arguments := List.replicate r.arity .i32 }

def host (r : Routine) : Host World :=
  { sessionHost with enter := fun _ arguments => r.script.run sessionHost arguments }

def call (r : Routine) (arguments : List Int32) : Except CallError NativeView × Observation :=
  let slots := arguments.map fun i => (Slot.ofInt i.toInt).narrow .i32
  let ((outcome, seen), m) := (Run.observe (r.signature.call r.host slots)) Machine.initial
  (outcome.map (m.engine.viewNative .i32), seen)

end Routine

end Ferry
