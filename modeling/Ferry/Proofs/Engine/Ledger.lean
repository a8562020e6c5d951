import Ferry.Proofs.Engine.Running
import Ferry.Proofs.Memory.Evolution

/-!
# The ledger

Events tell which blocks and callbacks came and went. `Engine.Moves` says what an action adds to this ledger:
what was gained, each of it new, and what was lost. Nothing but events is counted, so the ledger holds whoever
made them.
-/

set_option autoImplicit false

namespace Ferry

/-- What the engine makes for others and gives up again. -/
inductive Resource where
  | block (base : UInt64)
  | callback (serial : Nat)
deriving DecidableEq

namespace Event

def gained? : Event → Option Resource
  | allocated base _ _ => some (.block base)
  | callbackCreated serial _ => some (.callback serial)
  | _ => none

def lost? : Event → Option Resource
  | released base _ => some (.block base)
  | callbackDestroyed serial _ => some (.callback serial)
  | _ => none

end Event

/-- Everything that was made, latest first. -/
def gains (t : List Event) : List Resource := t.filterMap (·.gained?)

/-- Everything that was given up, latest first. -/
def losses (t : List Event) : List Resource := t.filterMap (·.lost?)

@[simp] theorem gains_append (t t' : List Event) : gains (t ++ t') = gains t ++ gains t' :=
  List.filterMap_append

@[simp] theorem losses_append (t t' : List Event) : losses (t ++ t') = losses t ++ losses t' :=
  List.filterMap_append

/-- A resource that did not exist in the first state, and does in the second. -/
def Resource.Between (s s' : Engine) : Resource → Prop
  | block base => s.memory.frontier ≤ base.toNat ∧ base.toNat < s'.memory.frontier
  | callback serial => s.nextCallback ≤ serial ∧ serial < s'.nextCallback

/-- What happened between two states, as the events tell it: what was gained, every item of it new, and what was
lost. No native code was called by a frame, and nobody came to own a structure. -/
structure Engine.Moves (s : Engine) (gained lost : List Resource) (s' : Engine) : Prop where
  events : ∃ t, s'.events = t ++ s.events ∧ (gains t).Perm gained ∧ (losses t).Perm lost
  frontier_le : s.memory.frontier ≤ s'.memory.frontier
  serial_le : s.nextCallback ≤ s'.nextCallback
  between : ∀ r ∈ gained, r.Between s s'
  nodup : gained.Nodup
  calls : s'.counters.calls = s.counters.calls
  unowned : ∀ a, s.owners.lookup a = none → s'.owners.lookup a = none

namespace Engine.Moves

variable {s s' s'' : Engine} {gained gained' lost lost' : List Resource}

theorem refl (s : Engine) : s.Moves [] [] s :=
  ⟨⟨[], rfl, .refl _, .refl _⟩, Nat.le_refl _, Nat.le_refl _, by simp, .nil, rfl, fun _ free => free⟩

theorem perm (h : s.Moves gained lost s') (sameGains : gained.Perm gained') (sameLosses : lost.Perm lost') :
    s.Moves gained' lost' s' := by
  obtain ⟨t, events, gains, losses⟩ := h.events
  refine ⟨⟨t, events, gains.trans sameGains, losses.trans sameLosses⟩, h.frontier_le, h.serial_le, fun r hr => ?_, ?_,
    h.calls, h.unowned⟩
  · exact h.between r (sameGains.mem_iff.mpr hr)
  · exact sameGains.nodup_iff.mp h.nodup

theorem trans (first : s.Moves gained lost s') (second : s'.Moves gained' lost' s'') :
    s.Moves (gained ++ gained') (lost ++ lost') s'' := by
  obtain ⟨t, events, gains₁, losses₁⟩ := first.events
  obtain ⟨t', events', gains₂, losses₂⟩ := second.events
  refine ⟨⟨t' ++ t, ?_, ?_, ?_⟩, Nat.le_trans first.frontier_le second.frontier_le,
    Nat.le_trans first.serial_le second.serial_le, ?_, ?_, second.calls.trans first.calls,
    fun a free => second.unowned a (first.unowned a free)⟩
  · rw [events', events, List.append_assoc]
  · rw [gains_append]
    exact (gains₂.append gains₁).trans List.perm_append_comm
  · rw [losses_append]
    exact (losses₂.append losses₁).trans List.perm_append_comm
  · intro r hr
    rcases List.mem_append.mp hr with early | late
    · have := first.between r early
      have := second.frontier_le
      have := second.serial_le
      cases r <;>
      · simp only [Resource.Between] at *
        omega
    · have := second.between r late
      have := first.frontier_le
      have := first.serial_le
      cases r <;>
      · simp only [Resource.Between] at *
        omega
  · refine List.nodup_append.mpr ⟨first.nodup, second.nodup, fun r early r' late => ?_⟩
    rintro rfl
    have before := first.between r early
    have behind := second.between r late
    cases r <;>
    · simp only [Resource.Between] at *
      omega

theorem trans_lost (first : s.Moves gained lost s') (second : s'.Moves [] lost' s'') :
    s.Moves gained (lost ++ lost') s'' := by
  have both := first.trans second
  rwa [List.append_nil] at both

theorem trans_gained (first : s.Moves gained lost s') (second : s'.Moves gained' [] s'') :
    s.Moves (gained ++ gained') lost s'' := by
  have both := first.trans second
  rwa [List.append_nil] at both

theorem quiet (h : s.Moves gained lost s') {t : List Event} (events : s''.events = t ++ s'.events)
    (gains : gains t = []) (losses : losses t = []) (frontier : s'.memory.frontier ≤ s''.memory.frontier)
    (serial : s''.nextCallback = s'.nextCallback) (calls : s''.counters.calls = s'.counters.calls)
    (owners : s''.owners = s'.owners) : s.Moves gained lost s'' := by
  have step : s'.Moves [] [] s'' :=
    ⟨⟨t, events, by rw [gains], by rw [losses]⟩, frontier, Nat.le_of_eq serial.symm, by simp, .nil, calls,
      fun a free => by rw [owners]; exact free⟩
  have both := h.trans step
  rwa [List.append_nil, List.append_nil] at both

/-- Two states determine the events between them, so these tell what was gained and lost however they were found. -/
theorem of_events (h : s.Moves gained lost s') {t : List Event} (events : s'.events = t ++ s.events) :
    (gains t).Perm gained ∧ (losses t).Perm lost := by
  obtain ⟨t', events', told⟩ := h.events
  have same : t' = t := List.append_cancel_right (events'.symm.trans events)
  rwa [same] at told

theorem settled (h : s.Moves gained lost s') (balanced : gained.Perm lost) :
    ∃ t, s'.events = t ++ s.events ∧ (gains t).Nodup ∧ (gains t).Perm (losses t) := by
  obtain ⟨t, events, gains, losses⟩ := h.events
  exact ⟨t, events, gains.nodup_iff.mpr h.nodup, gains.trans (balanced.trans losses.symm)⟩

end Engine.Moves

/-- An action that gives things up and makes nothing. Every chunk stays where it is, with what it holds. -/
structure Engine.GivesUp (s : Engine) (lost : List Resource) (s' : Engine) : Prop where
  moves : s.Moves [] lost s'
  chunks : ∀ b, b ∈ s'.memory.chunks ↔ b ∈ s.memory.chunks

namespace Engine.GivesUp

variable {s s' s'' : Engine} {lost lost' : List Resource}

theorem refl (s : Engine) : s.GivesUp [] s :=
  ⟨.refl s, fun _ => .rfl⟩

theorem perm (h : s.GivesUp lost s') (same : lost.Perm lost') : s.GivesUp lost' s' :=
  ⟨h.moves.perm (.refl _) same, h.chunks⟩

theorem trans (first : s.GivesUp lost s') (second : s'.GivesUp lost' s'') : s.GivesUp (lost ++ lost') s'' :=
  ⟨first.moves.trans second.moves, fun b => (second.chunks b).trans (first.chunks b)⟩

theorem load_eq (h : s.GivesUp lost s') (t : NativeType) (a : UInt64) :
    s'.memory.load t a = s.memory.load t a :=
  Memory.load_congr h.chunks t a

theorem forM {α : Type} {act : α → EngineM Unit} {items : List α} {lost : List (List Resource)} {m : Memory}
    (each : List.Forall₂ (fun x L => ∀ s : Engine, (∀ b, b ∈ s.memory.chunks ↔ b ∈ m.chunks) → s.GivesUp L (act x s).2)
      items lost)
    (s : Engine) (same : ∀ b, b ∈ s.memory.chunks ↔ b ∈ m.chunks) :
    s.GivesUp lost.flatten ((items.forM act : EngineM Unit) s).2 := by
  induction each generalizing s with
  | nil => exact .refl s
  | cons first rest ih =>
      have step := first s same
      exact step.trans (ih _ fun b => (step.chunks b).trans (same b))

end Engine.GivesUp

/-! ## Single actions -/

namespace EngineM

variable {s s' : Engine}

theorem allocate_moves {size : Nat} {a : UInt64} (made : allocate size s = (some a, s')) :
    s.Moves [.block a] [] s' := by
  obtain ⟨memory, allocated, rfl⟩ := allocate_some made
  obtain ⟨base, -, -, next, -⟩ := Memory.allocateEngine?_some allocated
  refine ⟨⟨[_], rfl, .refl _, .refl _⟩, Nat.le_of_lt next, Nat.le_refl _, fun r hr => ?_, by simp, rfl,
    fun _ free => free⟩
  rw [List.mem_singleton.mp hr]
  simp only [Resource.Between]
  omega

theorem release_eq (a : UInt64) (counted : Bool) (s : Engine) :
    ∃ counters, counters.calls = s.counters.calls ∧ (release a counted s).2 = { s with
      counters, events := .released a ((s.memory.block? a).map (·.label)) :: s.events
      memory := s.memory.release a } := by
  cases counted with
  | false => exact ⟨s.counters, rfl, rfl⟩
  | true => exact ⟨{ s.counters with releases := s.counters.releases + 1 }, rfl, rfl⟩

theorem release_givesUp (a : UInt64) (counted : Bool) (s : Engine) :
    s.GivesUp [.block a] (release a counted s).2 := by
  obtain ⟨counters, calls, same⟩ := release_eq a counted s
  rw [same]
  refine ⟨⟨⟨[_], rfl, .refl _, .refl _⟩, Nat.le_refl _, Nat.le_refl _, by simp, .nil, calls, fun _ free => free⟩,
    fun b => ?_⟩
  exact Memory.mem_chunks_release

theorem unreserve_givesUp (a : UInt64) (s : Engine) : s.GivesUp [] (unreserve a s).2 :=
  ⟨⟨⟨[], rfl, .refl _, .refl _⟩, Nat.le_refl _, Nat.le_refl _, by simp, .nil, rfl, fun _ free => free⟩,
    fun _ => Memory.mem_chunks_release⟩

theorem releaseFunction_eq (function : Nat) (s : Engine) : ∃ t functions, gains t = [] ∧ losses t = [] ∧
    (releaseFunction function s).2 = { s with events := t ++ s.events, functions } := by
  unfold releaseFunction
  rw [run_get]
  cases s.functions.lookup function with
  | none => exact ⟨[], s.functions, rfl, rfl, rfl⟩
  | some f => exact ⟨[_], _, rfl, rfl, rfl⟩

theorem letGo_eq (callable : Nat) (s : Engine) : ∃ t callables functions, gains t = [] ∧ losses t = [] ∧
    (letGo callable s).2 = { s with events := t ++ s.events, callables, functions } := by
  unfold letGo
  rw [run_get]
  cases s.callables.find? (·.id == callable) with
  | none => exact ⟨[], s.callables, s.functions, rfl, rfl, rfl⟩
  | some c =>
      by_cases last : c.holders ≤ 1
      · simp only [last, if_true]
        rw [run_bind]
        cases c.body with
        | host => exact ⟨[], _, s.functions, rfl, rfl, rfl⟩
        | native function =>
            obtain ⟨t, functions, gains, losses, same⟩ := releaseFunction_eq function
              { s with callables := s.callables.filter (·.id != callable) }
            exact ⟨t, _, functions, gains, losses, same⟩
      · simp only [last, if_false]
        exact ⟨[], _, s.functions, rfl, rfl, rfl⟩

theorem makeCallback_moves {callable : Nat} {signature : Signature} {scope : Scope} {made : Callback}
    (run : makeCallback callable signature scope s = (.ok made, s')) : s.Moves [.callback made.serial] [] s' := by
  obtain ⟨a, memory, found, rfl, rfl⟩ := makeCallback_ok run
  have storage : s.Moves [] [] { (hold callable s).2 with memory } :=
    (Engine.Moves.refl s).quiet (t := []) rfl rfl rfl (Memory.allocate?_evolves found).frontier_le rfl rfl rfl
  refine storage.trans
    ⟨⟨[_], rfl, .refl _, .refl _⟩, Nat.le_refl _, Nat.le_succ _, fun r hr => ?_, by simp, rfl, fun _ free => free⟩
  rw [List.mem_singleton.mp hr]
  exact ⟨Nat.le_refl _, Nat.lt_succ_self _⟩

theorem destroyCallback_givesUp (callback : Callback) (s : Engine) :
    s.GivesUp [.callback callback.serial] (destroyCallback callback s).2 := by
  obtain ⟨t, callables, functions, gains, losses, same⟩ := letGo_eq callback.callable (s.withoutCallback callback)
  rw [destroyCallback_eq, same]
  have destroyed : s.Moves [] [.callback callback.serial] (s.withoutCallback callback) :=
    ⟨⟨[_], rfl, .refl _, .refl _⟩, Nat.le_refl _, Nat.le_refl _, by simp, .nil, rfl, fun _ free => free⟩
  exact ⟨destroyed.quiet rfl gains losses (Nat.le_refl _) rfl rfl rfl, fun _ => Memory.mem_chunks_release⟩

end EngineM

end Ferry
