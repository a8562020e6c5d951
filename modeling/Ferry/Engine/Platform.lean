import Ferry.Call.Error

/-!
# The platform

What the engine asks of the system that it runs on: shared libraries with the symbols that they export, and
whether code can be made for a callback. The engine is written for any platform.
-/

namespace Ferry

structure Platform where
  loads : (library : String) → Bool
  find? : (library symbol : String) → Option UInt64
  prepares : Signature → Bool
  /-- No symbol lies at the null address. -/
  find?_ne_zero : ∀ library symbol, find? library symbol ≠ some 0

namespace Platform

def bare : Platform where
  loads _ := false
  find? _ _ := none
  prepares _ := true
  find?_ne_zero _ _ := nofun

instance : Inhabited Platform := ⟨bare⟩

def load (p : Platform) (name : String) : Except LoadError Unit :=
  if name.toList.contains '\x00' then .error .invalidName
  else if p.loads name then .ok ()
  else .error .loadFailed

def resolve (p : Platform) (library symbol : String) : Except SymbolError UInt64 :=
  if symbol.toList.contains '\x00' then .error .invalidName
  else
    match p.find? library symbol with
    | some a => .ok a
    | none => .error (.notFound symbol)

theorem resolve_ne_zero {p : Platform} {library symbol : String} {a : UInt64}
    (found : p.resolve library symbol = .ok a) : a ≠ 0 := by
  rintro rfl
  unfold resolve at found
  split at found
  · cases found
  · split at found <;> cases found
    exact p.find?_ne_zero library symbol ‹_›

end Platform

end Ferry
