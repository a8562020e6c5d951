import Ferry.Boxed
import Ferry.Engine.Observation
import Ferry.Engine.View

/-!
# Handles in a row

Structures and handles to them, one after the other: each new handle goes to the end of the row, and a
dropped one leaves its place empty. A structure for which there is no memory takes an empty place, and so
does a copy of an empty place.
-/

namespace Ferry

/-- A step on the row. Handles go by their place. -/
inductive HandleStep where
  | create (layout : Layout)
  | clone (place : Nat)
  | borrow (place : Nat)
  | drop (place : Nat)
  | write (place : Nat) (t : NativeType) (offset : UInt64) (slot : Slot)
  | read (place : Nat) (t : NativeType) (offset : UInt64)
  | same (place other : Nat)
  | sameLayout (place other : Nat)
deriving Repr, Inhabited

abbrev Row := List (Option Boxed)

inductive HandleReply where
  | row (handles : List (Option ValueView))
  | field (v : NativeView)
  | truth (b : Bool)
deriving Repr, Inhabited

inductive HandleError where
  | outOfBounds
  | empty (place : Nat)
deriving DecidableEq, Repr, Inhabited

abbrev RowM := ExceptT HandleError (StateT Row EngineM)

namespace RowM

def engine (act : EngineM α) : RowM α :=
  ExceptT.lift (StateT.lift act)

def entry (place : Nat) : RowM (Option Boxed) := do
  match (← getThe Row)[place]? with
  | some b => return b
  | none => throw (.empty place)

def handle (place : Nat) : RowM Boxed := do
  match ← entry place with
  | some b => return b
  | none => throw (.empty place)

def append (b : Option Boxed) : RowM Unit :=
  modifyThe Row (· ++ [b])

def view : RowM HandleReply := do
  let s ← engine get
  return .row ((← getThe Row).map fun b => b.map fun b => s.viewValue (.boxed b))

def carryOut : HandleStep → RowM HandleReply
  | .create layout => do
    append (← engine (Boxed.make? layout))
    view
  | .clone place => do
    let b ← entry place
    b.forM fun b => engine (Value.boxed b).retain
    append b
    view
  | .borrow place => do
    append ((← entry place).map Boxed.borrow)
    view
  | .drop place => do
    let b ← entry place
    modifyThe Row (·.set place none)
    b.forM fun b => engine (Value.boxed b).release
    view
  | .write place t offset slot => do
    let b ← handle place
    if ← engine (b.write? t offset slot) then view else throw .outOfBounds
  | .read place t offset => do
    let b ← handle place
    match ← engine (b.read? t offset) with
    | some slot => return .field ((← engine get).viewNative t slot)
    | none => throw .outOfBounds
  | .same place other => return .truth ((← handle place).same (← handle other))
  | .sameLayout place other => return .truth ((← handle place).layout = (← handle other).layout)

end RowM

namespace Row

/-- One step, with what the engine did. -/
def advance (step : HandleStep) : StateT Row EngineM (Except HandleError HandleReply × Observation) := do
  let row ← get
  let ((answer, row), seen) ← StateT.lift (EngineM.observe (StateT.run (RowM.carryOut step).run row))
  set row
  return (answer, seen)

/-- The steps in order, each with what the engine did. -/
def runSteps : List HandleStep → StateT Row EngineM (List (Except HandleError HandleReply × Observation))
  | [] => return []
  | step :: rest => do
    let first ← advance step
    return first :: (← runSteps rest)

def run (steps : List HandleStep) : List (Except HandleError HandleReply × Observation) :=
  (((runSteps steps).run []).run .initial).1.1

end Row

end Ferry
