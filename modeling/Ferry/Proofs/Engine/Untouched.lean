import Ferry.Proofs.Engine.Ledger
import Ferry.Proofs.Plan.Obtained

/-!
# What leaves callbacks alone

Most actions of the engine have nothing to do with callbacks: the live ones, the registry and the record of
those destroyed stay as they are. `Engine.Untouched` says so of two states, and `Quiet` of an action. Every
conversion is quiet, and so is everything else that a call does beside making, handing over and destroying
callbacks.
-/

set_option autoImplicit false

namespace Ferry

def Resource.serial? : Resource → Option Nat
  | callback serial => some serial
  | block _ => none

namespace Engine

/-- The numbers of the callbacks that were destroyed, latest first. -/
def destroyed (s : Engine) : List Nat := (losses s.events).filterMap (·.serial?)

/-- Every plan that is kept is coherent. -/
structure PlansCoherent (s : Engine) : Prop where
  kept : ∀ id p, (id, p) ∈ s.plans → p.Coherent
  bound : ∀ id f p, (id, f) ∈ s.functions → f.plan = some p → p.Coherent

/-- Between the two states nothing happened to callbacks. -/
structure Untouched (s s' : Engine) : Prop where
  callbacks : s'.callbacks = s.callbacks
  durable : s'.durable = s.durable
  nextCallback : s'.nextCallback = s.nextCallback
  destroyed : s'.destroyed = s.destroyed
  frontier_le : s.memory.frontier ≤ s'.memory.frontier
  plans : s.PlansCoherent → s'.PlansCoherent

namespace Untouched

variable {s s' s'' : Engine}

theorem refl (s : Engine) : s.Untouched s :=
  ⟨rfl, rfl, rfl, rfl, Nat.le_refl _, id⟩

theorem trans (first : s.Untouched s') (second : s'.Untouched s'') : s.Untouched s'' where
  callbacks := second.callbacks.trans first.callbacks
  durable := second.durable.trans first.durable
  nextCallback := second.nextCallback.trans first.nextCallback
  destroyed := second.destroyed.trans first.destroyed
  frontier_le := Nat.le_trans first.frontier_le second.frontier_le
  plans h := second.plans (first.plans h)

end Untouched

end Engine

/-- An action that leaves callbacks alone, whatever the state. -/
def Quiet {α : Type} (act : EngineM α) : Prop :=
  ∀ s : Engine, s.Untouched (act s).2

namespace Quiet

variable {α β ε : Type}

/-! ## Sequences -/

theorem pure (a : α) : Quiet (Pure.pure a : EngineM α) := fun s => .refl s

theorem bind {act : EngineM α} {next : α → EngineM β} (first : Quiet act) (later : ∀ a, Quiet (next a)) :
    Quiet (act >>= next) := fun s => (first s).trans (later _ _)

theorem modify {change : Engine → Engine} (untouched : ∀ s : Engine, s.Untouched (change s)) :
    Quiet (modify change : EngineM Unit) := untouched

theorem get {next : Engine → EngineM α} (later : ∀ s : Engine, s.Untouched (next s s).2) :
    Quiet (MonadState.get >>= next) := later

/-! ## Sequences that may fail -/

theorem ok (a : α) : Quiet (Pure.pure a : ExceptT ε EngineM α) := fun s => .refl s

theorem throw (e : ε) : Quiet (MonadExcept.throw e : ExceptT ε EngineM α) := fun s => .refl s

theorem failing_bind {act : ExceptT ε EngineM α} {next : α → ExceptT ε EngineM β} (first : Quiet act)
    (later : ∀ a, Quiet (next a)) : Quiet (act >>= next : ExceptT ε EngineM β) := by
  intro s
  rw [EngineM.failing_bind]
  have before := first s
  rcases found : act s with ⟨r, s'⟩
  rw [found] at before
  cases r with
  | ok a => exact before.trans (later a s')
  | error e => exact before

theorem failing_lift {act : EngineM α} {next : α → ExceptT ε EngineM β} (first : Quiet act)
    (later : ∀ a, Quiet (next a)) : Quiet (liftM act >>= next : ExceptT ε EngineM β) :=
  fun s => (first s).trans (later _ _)

theorem tryCatch {act : ExceptT ε EngineM α} {handler : ε → ExceptT ε EngineM α} (first : Quiet act)
    (later : ∀ e, Quiet (handler e)) : Quiet (MonadExcept.tryCatch act handler : ExceptT ε EngineM α) := by
  intro s
  have same := EngineM.tryCatch_eq act handler s
  have before := first s
  rcases found : act s with ⟨r, s'⟩
  rw [found] at same before
  rw [same]
  cases r with
  | ok a => exact before
  | error e => exact before.trans (later e s')

end Quiet

/-! ## Single actions -/

namespace EngineM

theorem quiet_record {e : Event} (other : e.lost? = none) : Quiet (record e) := fun s => by
  have same : losses (e :: s.events) = losses s.events := List.filterMap_cons_none other
  exact ⟨rfl, rfl, rfl, congrArg (List.filterMap Resource.serial?) same, Nat.le_refl _, fun h => ⟨h.1, h.2⟩⟩

theorem quiet_log (entry : LogEntry) : Quiet (log entry) := quiet_record rfl

theorem quiet_count (f : Counters → Counters) : Quiet (count f) := fun _ => ⟨rfl, rfl, rfl, rfl, Nat.le_refl _, fun h => ⟨h.1, h.2⟩⟩

theorem quiet_freshIdentity : Quiet freshIdentity := fun _ => ⟨rfl, rfl, rfl, rfl, Nat.le_refl _, fun h => ⟨h.1, h.2⟩⟩

theorem quiet_own (a : UInt64) : Quiet (own a) := fun _ => ⟨rfl, rfl, rfl, rfl, Nat.le_refl _, fun h => ⟨h.1, h.2⟩⟩

theorem quiet_hold (callable : Nat) : Quiet (hold callable) := fun _ => ⟨rfl, rfl, rfl, rfl, Nat.le_refl _, fun h => ⟨h.1, h.2⟩⟩

theorem quiet_load (t : NativeType) (a : UInt64) : Quiet (load t a) := fun s => .refl s

theorem quiet_readBytes (a : UInt64) (n : Nat) : Quiet (readBytes a n) := fun s => .refl s

theorem untouched_memory {s : Engine} {memory : Memory} (forward : s.memory.frontier ≤ memory.frontier) :
    s.Untouched { s with memory } :=
  ⟨rfl, rfl, rfl, rfl, forward, fun h => ⟨h.1, h.2⟩⟩

theorem quiet_store (t : NativeType) (a : UInt64) (slot : Slot) : Quiet (store t a slot) := fun _ =>
  untouched_memory (Nat.le_of_eq (Memory.frontier_store _ _ _ _).symm)

theorem quiet_writeBytes (a : UInt64) (bytes : List UInt8) : Quiet (writeBytes a bytes) := fun _ =>
  untouched_memory (Nat.le_of_eq (Memory.frontier_write _ _ _).symm)

theorem quiet_unreserve (a : UInt64) : Quiet (unreserve a) := fun _ =>
  untouched_memory (Nat.le_of_eq (Memory.frontier_release _ _).symm)

theorem quiet_reserve (size : Nat) : Quiet (reserve size) := by
  intro s
  rcases reserve_cases size s with ⟨a, memory, made, reserved⟩ | ⟨-, reserved⟩
  · rw [reserved]
    exact untouched_memory (Memory.allocate?_evolves made).frontier_le
  · rw [reserved]
    exact .refl s

theorem quiet_allocate (size : Nat) : Quiet (allocate size) := by
  intro s
  rcases made : allocate size s with ⟨_ | a, s'⟩
  · rw [allocate_none made]
    exact .refl s
  · obtain ⟨memory, allocated, rfl⟩ := allocate_some made
    exact ⟨rfl, rfl, rfl, rfl, (Memory.allocateEngine?_evolves allocated).frontier_le, fun h => ⟨h.1, h.2⟩⟩

theorem quiet_release (a : UInt64) (counted : Bool) : Quiet (release a counted) := by
  intro s
  obtain ⟨counters, -, same⟩ := release_eq a counted s
  rw [same]
  exact ⟨rfl, rfl, rfl, rfl, Nat.le_refl _, fun h => ⟨h.1, h.2⟩⟩

theorem quiet_disown (a : UInt64) : Quiet (disown a) := by
  refine Quiet.get fun s => ?_
  cases s.owners.lookup a with
  | none => exact .refl s
  | some count =>
      simp only
      split
      · have dropped : s.Untouched { s with owners := s.owners.filter (·.1 != a) } :=
          ⟨rfl, rfl, rfl, rfl, Nat.le_refl _, fun h => ⟨h.1, h.2⟩⟩
        exact dropped.trans (quiet_release a true _)
      · exact ⟨rfl, rfl, rfl, rfl, Nat.le_refl _, fun h => ⟨h.1, h.2⟩⟩

theorem quiet_releaseFunction (function : Nat) : Quiet (releaseFunction function) := by
  refine Quiet.get fun s => ?_
  cases s.functions.lookup function with
  | none => exact .refl s
  | some f =>
      refine ⟨rfl, rfl, rfl, rfl, Nat.le_refl _, fun h => ⟨h.kept, fun id g p listed plan => ?_⟩⟩
      exact h.bound id g p (List.mem_filter.mp listed).1 plan

theorem quiet_letGo (callable : Nat) : Quiet (letGo callable) := by
  refine Quiet.get fun s => ?_
  cases s.callables.find? (·.id == callable) with
  | none => exact .refl s
  | some c =>
      simp only
      split
      · have ended : s.Untouched { s with callables := s.callables.filter (·.id != callable) } :=
          ⟨rfl, rfl, rfl, rfl, Nat.le_refl _, fun h => ⟨h.1, h.2⟩⟩
        rw [run_bind]
        cases c.body with
        | host => exact ended
        | native function => exact ended.trans (quiet_releaseFunction function _)
      · exact ⟨rfl, rfl, rfl, rfl, Nat.le_refl _, fun h => ⟨h.1, h.2⟩⟩

end EngineM

mutual

theorem Value.quiet_retain (v : Value) : Quiet v.retain := by
  cases v with
  | array items => exact Value.quiet_retainAll items
  | boxed b =>
      unfold Value.retain
      split
      · exact EngineM.quiet_own b.address
      · exact .pure ()
  | function f => exact EngineM.quiet_hold f.id
  | _ => exact .pure ()

theorem Value.quiet_retainAll (items : List Value) : Quiet (Value.retainAll items) := by
  cases items with
  | nil => exact .pure ()
  | cons v rest => exact .bind v.quiet_retain fun _ => Value.quiet_retainAll rest

end

mutual

theorem Value.quiet_release (v : Value) : Quiet v.release := by
  cases v with
  | array items => exact Value.quiet_releaseAll items
  | boxed b =>
      unfold Value.release
      split
      · exact EngineM.quiet_disown b.address
      · exact Quiet.pure ()
  | function f => exact EngineM.quiet_letGo f.id
  | _ => exact Quiet.pure ()

theorem Value.quiet_releaseAll (items : List Value) : Quiet (Value.releaseAll items) := by
  cases items with
  | nil => exact Quiet.pure ()
  | cons v rest => exact Quiet.bind v.quiet_release fun _ => Value.quiet_releaseAll rest

end

end Ferry
