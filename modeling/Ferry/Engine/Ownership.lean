import Ferry.Engine.State

/-!
# Ownership of values

Structures and callables live as long as a value holds them. `Value.retain` is what copying a value
does, `Value.release` is what dropping one does: the last owner of a structure releases its block, and
the last holder of a callable ends it.
-/

namespace Ferry

/-- Adds `n` to the count of a key; a key that is missing starts at zero. -/
def increment (key : UInt64) (n : Nat) : List (UInt64 × Nat) → List (UInt64 × Nat)
  | [] => [(key, n)]
  | (k, count) :: rest => if k = key then (k, count + n) :: rest else (k, count) :: increment key n rest

namespace EngineM

def own (a : UInt64) : EngineM Unit :=
  modify fun s => { s with owners := increment a 1 s.owners }

/-- One handle less owns the structure; the last one releases it. -/
def disown (a : UInt64) : EngineM Unit := do
  let s ← get
  match s.owners.lookup a with
  | none => return ()
  | some count =>
    let others := s.owners.filter (·.1 != a)
    if count ≤ 1 then
      set { s with owners := others }
      release a true
    else
      set { s with owners := (a, count - 1) :: others }

def hold (callable : Nat) : EngineM Unit :=
  modify fun s =>
    { s with
      callables := s.callables.map fun c =>
        if c.id = callable then { c with holders := c.holders + 1 } else c }

def releaseFunction (function : Nat) : EngineM Unit := do
  let s ← get
  match s.functions.lookup function with
  | none => return ()
  | some f =>
    set { s with functions := s.functions.filter (·.1 != function) }
    log (.functionReleased f.name f.implementor)

/-- One holder of a callable less; without holders it ends, and a native function with it. -/
def letGo (callable : Nat) : EngineM Unit := do
  let s ← get
  match s.callables.find? (·.id == callable) with
  | none => return ()
  | some c =>
    if c.holders ≤ 1 then
      set { s with callables := s.callables.filter (·.id != callable) }
      match c.body with
      | .native function => releaseFunction function
      | .host => return ()
    else
      let fewer (d : Callable) : Callable :=
        if d.id = callable then { d with holders := d.holders - 1 } else d
      set { s with callables := s.callables.map fewer }

def makeCallable (name : String) (body : CallableBody) : EngineM FunctionRef := do
  let id ← freshIdentity
  modify fun s => { s with callables := ⟨id, name, 1, body⟩ :: s.callables }
  return ⟨id, name⟩

end EngineM

mutual

def Value.retain : Value → EngineM Unit
  | .array items => Value.retainAll items
  | .boxed b => if b.owned then EngineM.own b.address else pure ()
  | .function f => EngineM.hold f.id
  | _ => pure ()

def Value.retainAll : List Value → EngineM Unit
  | [] => pure ()
  | v :: rest => do
    v.retain
    Value.retainAll rest

end

mutual

def Value.release : Value → EngineM Unit
  | .array items => Value.releaseAll items
  | .boxed b => if b.owned then EngineM.disown b.address else pure ()
  | .function f => EngineM.letGo f.id
  | _ => pure ()

def Value.releaseAll : List Value → EngineM Unit
  | [] => pure ()
  | v :: rest => do
    v.release
    Value.releaseAll rest

end

end Ferry
