import Ferry.Callback.Lifetime
import Ferry.Marshal.Basic

/-!
# Running actions that may fail

Conversions and invocations are actions of the engine that may fail. What a sequence of two does is one of
two things: the first fails, or both run. Single actions are told by the states that they lead to, and sequences by the
relations between states that hold across every step.
-/

set_option autoImplicit false

namespace Ferry

theorem exists_ok {α ε σ : Type} {r : Except ε α × σ} (ok : r.1.isOk = true) : ∃ a s, r = (.ok a, s) := by
  obtain ⟨result, s⟩ := r
  cases result with
  | error e => cases ok
  | ok a => exact ⟨a, s, rfl⟩

namespace EngineM

variable {ε α β : Type} {s s'' : Engine}

theorem run_bind (act : EngineM α) (next : α → EngineM β) (s : Engine) :
    (act >>= next) s = next (act s).1 (act s).2 := rfl

theorem run_get (next : Engine → EngineM β) (s : Engine) : (get >>= next) s = next s s := rfl

theorem failing_bind (act : ExceptT ε EngineM α) (next : α → ExceptT ε EngineM β) (s : Engine) :
    (act >>= next : ExceptT ε EngineM β) s =
      match act s with
      | (.ok a, s') => next a s'
      | (.error e, s') => (.error e, s') := by
  rcases found : act s with ⟨r, s'⟩
  simp only [bind, ExceptT.bind, ExceptT.mk, StateT.bind, found]
  cases r <;> rfl

theorem failing_lift (act : EngineM α) (next : α → ExceptT ε EngineM β) (s : Engine) :
    (liftM act >>= next : ExceptT ε EngineM β) s = next (act s).1 (act s).2 := rfl

theorem failing_get (next : Engine → ExceptT ε EngineM β) (s : Engine) :
    (getThe Engine >>= next : ExceptT ε EngineM β) s = next s s := rfl

theorem failing_bind_cases {act : ExceptT ε EngineM α} {next : α → ExceptT ε EngineM β} {r : Except ε β}
    (run : (act >>= next : ExceptT ε EngineM β) s = (r, s'')) :
    (∃ a s', act s = (.ok a, s') ∧ next a s' = (r, s'')) ∨ ∃ e, act s = (.error e, s'') ∧ r = .error e := by
  rw [failing_bind] at run
  rcases found : act s with ⟨first, s'⟩
  rw [found] at run
  cases first with
  | ok a => exact Or.inl ⟨a, s', rfl, run⟩
  | error e =>
      cases run
      exact Or.inr ⟨e, rfl, rfl⟩

theorem failing_bind_ok {act : ExceptT ε EngineM α} {next : α → ExceptT ε EngineM β} {b : β}
    (run : (act >>= next : ExceptT ε EngineM β) s = (.ok b, s'')) :
    ∃ a s', act s = (.ok a, s') ∧ next a s' = (.ok b, s'') := by
  rcases failing_bind_cases run with both | ⟨e, -, impossible⟩
  · exact both
  · cases impossible

theorem tryCatch_eq (act : ExceptT ε EngineM α) (handler : ε → ExceptT ε EngineM α) (s : Engine) :
    (tryCatch act handler : ExceptT ε EngineM α) s =
      match act s with
      | (.ok a, s') => (.ok a, s')
      | (.error e, s') => handler e s' := by
  rcases found : act s with ⟨r, s'⟩
  simp only [tryCatch, tryCatchThe, MonadExceptOf.tryCatch, ExceptT.tryCatch, ExceptT.mk, bind, StateT.bind,
    found]
  cases r <;> rfl

/-- A handler that fails again does not turn a failure into a success. -/
theorem tryCatch_ok {act : ExceptT ε EngineM α} {undo : ε → EngineM Unit} {a : α}
    (run : (tryCatch act fun e => do undo e; throw e : ExceptT ε EngineM α) s = (.ok a, s'')) :
    act s = (.ok a, s'') := by
  rw [tryCatch_eq] at run
  rcases found : act s with ⟨r, s'⟩
  rw [found] at run
  cases r with
  | ok b => exact run
  | error e => cases run

theorem tryCatch_error {act : ExceptT ε EngineM α} {undo : ε → EngineM Unit} {e : ε}
    (run : (tryCatch act fun e => do undo e; throw e : ExceptT ε EngineM α) s = (.error e, s'')) :
    ∃ s', act s = (.error e, s') ∧ s'' = (undo e s').2 := by
  rw [tryCatch_eq] at run
  rcases found : act s with ⟨r, s'⟩
  rw [found] at run
  cases r with
  | ok b => cases run
  | error e =>
      cases run
      exact ⟨s', rfl, rfl⟩

end EngineM

namespace EncodeM

variable {α : Type} {s s' : Engine} {act : EncodeM α} {repair : EngineM Unit}

theorem onError_eq (act : EncodeM α) (repair : EngineM Unit) (s : Engine) :
    act.onError repair s =
      match act s with
      | (.ok a, s') => (.ok a, s')
      | (.error (.error e), s') => (.error (.error e), (repair s').2)
      | (.error (.panic text), s') => (.error (.panic text), s') := by
  unfold onError
  rw [EngineM.tryCatch_eq]
  rcases act s with ⟨(_ | _) | a, s'⟩ <;> rfl

theorem onError_ok {a : α} (run : act.onError repair s = (.ok a, s')) : act s = (.ok a, s') := by
  rw [onError_eq] at run
  rcases found : act s with ⟨(e | text) | b, s₁⟩ <;> rw [found] at run
  · cases run
  · cases run
  · exact run

theorem onError_error {failure : Failure MarshalError} (run : act.onError repair s = (.error failure, s')) :
    ∃ s₁, act s = (.error failure, s₁) ∧
      ((∃ e, failure = .error e) ∧ s' = (repair s₁).2 ∨ (∃ text, failure = .panic text) ∧ s' = s₁) := by
  rw [onError_eq] at run
  rcases found : act s with ⟨(e | text) | b, s₁⟩ <;> rw [found] at run
  · cases run
    exact ⟨s₁, rfl, Or.inl ⟨⟨e, rfl⟩, rfl⟩⟩
  · cases run
    exact ⟨_, rfl, Or.inr ⟨⟨text, rfl⟩, rfl⟩⟩
  · cases run

end EncodeM

namespace EngineM

/-! ## Relations between states -/

section Across

variable {α : Type} {R : Engine → Engine → Prop} (refl : ∀ s, R s s) (trans : ∀ {s s' s''}, R s s' → R s' s'' → R s s'')

include refl

theorem forM_option_across {act : α → EngineM Unit} (item : Option α) (each : ∀ x ∈ item, ∀ s, R s (act x s).2)
    (s : Engine) : R s ((item.forM act : EngineM Unit) s).2 := by
  cases item with
  | none => exact refl s
  | some x => exact each x rfl s

include trans

/-- What holds across each action of a list holds across the list. -/
theorem forM_across {act : α → EngineM Unit} (items : List α) (each : ∀ x ∈ items, ∀ s, R s (act x s).2) (s : Engine) :
    R s ((items.forM act : EngineM Unit) s).2 := by
  induction items generalizing s with
  | nil => exact refl s
  | cons x rest ih =>
      exact trans (each x List.mem_cons_self s) (ih (fun y hy => each y (List.mem_cons_of_mem x hy)) _)

end Across

/-! ## Single actions -/

theorem allocate_eq (size : Nat) (s : Engine) :
    allocate size s =
      match s.memory.allocateEngine? size with
      | none => (none, s)
      | some (a, memory) => (some a, { s with
          memory, counters := { s.counters with allocations := s.counters.allocations + 1 }
          events := .allocated a (.engine s.memory.engineBlocks) size :: s.events }) := by
  cases found : s.memory.allocateEngine? size <;>
  · simp only [allocate, bind, StateT.bind, get, getThe, MonadStateOf.get, StateT.get, pure, found]
    rfl

theorem allocate_some {size : Nat} {a : UInt64} {s s' : Engine} (made : allocate size s = (some a, s')) :
    ∃ memory, s.memory.allocateEngine? size = some (a, memory) ∧ s' = { s with
      memory, counters := { s.counters with allocations := s.counters.allocations + 1 }
      events := .allocated a (.engine s.memory.engineBlocks) size :: s.events } := by
  rw [allocate_eq] at made
  cases found : s.memory.allocateEngine? size with
  | none =>
      rw [found] at made
      cases made
  | some p =>
      obtain ⟨b, memory⟩ := p
      rw [found] at made
      cases made
      exact ⟨memory, rfl, rfl⟩

theorem allocate_none {size : Nat} {s s' : Engine} (full : allocate size s = (none, s')) : s' = s := by
  rw [allocate_eq] at full
  cases found : s.memory.allocateEngine? size with
  | none =>
      rw [found] at full
      cases full
      rfl
  | some p =>
      rw [found] at full
      cases full

theorem reserve_cases (size : Nat) (s : Engine) :
    (∃ a memory, s.memory.allocate? .hidden size = some (a, memory) ∧
      reserve size s = (a, { s with memory })) ∨
    (s.memory.allocate? .hidden size = none ∧ reserve size s = (0, s)) := by
  cases found : s.memory.allocate? .hidden size with
  | none =>
      right
      refine ⟨rfl, ?_⟩
      simp only [reserve, modifyGet, MonadStateOf.modifyGet, StateT.modifyGet, found]
      rfl
  | some p =>
      obtain ⟨a, memory⟩ := p
      left
      refine ⟨a, memory, rfl, ?_⟩
      simp only [reserve, modifyGet, MonadStateOf.modifyGet, StateT.modifyGet, found]
      rfl

end EngineM

/-! ## Callbacks -/

/-- The engine with one more callback. -/
def Engine.withCallback (s : Engine) (c : Callback) : Engine :=
  { s with
    nextCallback := s.nextCallback + 1, callbacks := c :: s.callbacks
    counters := { s.counters with callbacksCreated := s.counters.callbacksCreated + 1 }
    events := .callbackCreated c.serial c.signature.name :: s.events }

/-- The engine without a callback, whose callable is still held. -/
def Engine.withoutCallback (s : Engine) (c : Callback) : Engine :=
  { s with
    events := .callbackDestroyed c.serial c.signature.name :: s.events
    memory := s.memory.release c.token
    callbacks := s.callbacks.filter (·.serial != c.serial)
    counters := { s.counters with callbacksDestroyed := s.counters.callbacksDestroyed + 1 } }

namespace EngineM

theorem makeCallback_eq (callable : Nat) (signature : Signature) (scope : Scope) (s : Engine) :
    makeCallback callable signature scope s =
      match s.memory.allocate? .hidden 16 with
      | none => (.error (.host "Failed to allocate callback closure"), s)
      | some (a, memory) =>
        if s.platform.prepares signature then
          let c : Callback := ⟨s.nextCallback, a, a + 8, callable, signature, scope⟩
          (.ok c, ({ (hold callable s).2 with memory } : Engine).withCallback c)
        else (.error (.host ("Failed to prepare callback " ++ signature.qualifiedName)), s) := by
  unfold makeCallback
  rw [failing_get]
  cases s.memory.allocate? .hidden 16 with
  | none => rfl
  | some storage => cases prepared : s.platform.prepares signature <;> rfl

/-- What is made is a callback of its own number, in storage of its own. -/
theorem makeCallback_ok {callable : Nat} {signature : Signature} {scope : Scope} {c : Callback}
    {s s' : Engine} (run : makeCallback callable signature scope s = (.ok c, s')) :
    ∃ a memory, s.memory.allocate? .hidden 16 = some (a, memory) ∧
      c = ⟨s.nextCallback, a, a + 8, callable, signature, scope⟩ ∧
      s' = ({ (hold callable s).2 with memory } : Engine).withCallback c := by
  rw [makeCallback_eq] at run
  split at run
  · cases run
  · rename_i a memory found
    split at run
    · cases run
      exact ⟨a, memory, found, rfl, rfl⟩
    · cases run

/-- A callback that cannot be made leaves nothing behind. -/
theorem makeCallback_error {callable : Nat} {signature : Signature} {scope : Scope} {e : InvokeError}
    {s s' : Engine} (run : makeCallback callable signature scope s = (.error e, s')) :
    s' = s ∧ ∃ message, e = .host message := by
  rw [makeCallback_eq] at run
  split at run
  · cases run
    exact ⟨rfl, _, rfl⟩
  · split at run <;> cases run
    exact ⟨rfl, _, rfl⟩

theorem destroyCallback_eq (c : Callback) (s : Engine) :
    (destroyCallback c s).2 = (letGo c.callable (s.withoutCallback c)).2 := rfl

end EngineM

end Ferry
