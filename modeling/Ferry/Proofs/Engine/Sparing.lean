import Ferry.Proofs.Engine.Ledger

/-!
# What is spared

`Engine.Spares a s s'` says that between two states the engine did not give up the block at the address `a`: it reported no
release of the block, the block is alive if it was, and has the owners that it had. Making things spares every block, and
giving something up spares every other block. Where it is the events that tell whether a block goes, `Engine.Reports` keeps
the two apart: what goes, and what is reported.
-/

set_option autoImplicit false

namespace Ferry

/-- Between the two states the engine left the block at an address to those who own it. -/
structure Engine.Spares (a : UInt64) (s s' : Engine) : Prop where
  events : ∃ t, s'.events = t ++ s.events ∧ .block a ∉ losses t
  live : s.memory.Live a → s'.memory.Live a
  owners : s'.owners.lookup a = s.owners.lookup a
  frontier_le : s.memory.frontier ≤ s'.memory.frontier

/-- If the block at an address went between the two states, the events say so. Its owners are the same. -/
structure Engine.Reports (a : UInt64) (s s' : Engine) : Prop where
  events : ∃ t, s'.events = t ++ s.events ∧ (s.memory.Live a → s'.memory.Live a ∨ .block a ∈ losses t)
  owners : s'.owners.lookup a = s.owners.lookup a
  frontier_le : s.memory.frontier ≤ s'.memory.frontier

variable {s s' s'' : Engine} {a x : UInt64}

namespace Engine.Spares

theorem refl (a : UInt64) (s : Engine) : s.Spares a s :=
  ⟨⟨[], rfl, by simp [losses]⟩, id, rfl, Nat.le_refl _⟩

theorem trans (first : s.Spares a s') (second : s'.Spares a s'') : s.Spares a s'' where
  events := by
    obtain ⟨t, events, kept⟩ := first.events
    obtain ⟨t', events', kept'⟩ := second.events
    refine ⟨t' ++ t, by rw [events', events, List.append_assoc], ?_⟩
    rw [losses_append, List.mem_append]
    exact not_or.mpr ⟨kept', kept⟩
  live alive := second.live (first.live alive)
  owners := second.owners.trans first.owners
  frontier_le := Nat.le_trans first.frontier_le second.frontier_le

/-- Nothing is given up between the two states, and memory moves forward. -/
theorem of_forward {touched : List UInt64} {t : List Event} (events : s'.events = t ++ s.events)
    (losses : losses t = []) (forward : s.memory.Evolves touched s'.memory)
    (owners : s'.owners.lookup a = s.owners.lookup a) : s.Spares a s' :=
  ⟨⟨t, events, by simp [losses]⟩, forward.live, owners, forward.frontier_le⟩

/-- The two states have the same memory. -/
theorem of_memory {t : List Event} (events : s'.events = t ++ s.events) (losses : losses t = [])
    (memory : s'.memory = s.memory) (owners : s'.owners.lookup a = s.owners.lookup a) : s.Spares a s' :=
  have forward : s.memory.Evolves [] s'.memory := by
    rw [memory]
    exact .refl [] _
  of_forward events losses forward owners

/-- A list of actions, each of which spares the block. -/
theorem forM {α : Type} {act : α → EngineM Unit} (items : List α)
    (each : ∀ y ∈ items, ∀ s : Engine, s.Spares a (act y s).2) (s : Engine) :
    s.Spares a ((items.forM act : EngineM Unit) s).2 :=
  EngineM.forM_across (R := Engine.Spares a) (refl a) trans items each s

end Engine.Spares

namespace Engine.Reports

theorem refl (a : UInt64) (s : Engine) : s.Reports a s :=
  ⟨⟨[], rfl, Or.inl⟩, rfl, Nat.le_refl _⟩

theorem trans (first : s.Reports a s') (second : s'.Reports a s'') : s.Reports a s'' where
  events := by
    obtain ⟨t, events, told⟩ := first.events
    obtain ⟨t', events', told'⟩ := second.events
    refine ⟨t' ++ t, by rw [events', events, List.append_assoc], fun alive => ?_⟩
    rw [losses_append, List.mem_append]
    rcases told alive with still | lost
    · exact (told' still).imp_right Or.inl
    · exact Or.inr (Or.inr lost)
  owners := second.owners.trans first.owners
  frontier_le := Nat.le_trans first.frontier_le second.frontier_le

theorem of_spares (h : s.Spares a s') : s.Reports a s' where
  events := by
    obtain ⟨t, events, -⟩ := h.events
    exact ⟨t, events, fun alive => Or.inl (h.live alive)⟩
  owners := h.owners
  frontier_le := h.frontier_le

/-- What goes is reported, and the block is not among what is given up. -/
theorem spares {lost : List Resource} (h : s.Reports a s') (given : s.GivesUp lost s') (kept : .block a ∉ lost) :
    s.Spares a s' := by
  obtain ⟨t, events, told⟩ := h.events
  have same := (given.moves.of_events events).2
  have absent : .block a ∉ losses t := fun hit => kept (same.mem_iff.mp hit)
  exact ⟨⟨t, events, absent⟩, fun alive => (told alive).resolve_right absent, h.owners, h.frontier_le⟩

theorem forM {α : Type} {act : α → EngineM Unit} (items : List α)
    (each : ∀ y ∈ items, ∀ s : Engine, s.Reports a (act y s).2) (s : Engine) :
    s.Reports a ((items.forM act : EngineM Unit) s).2 :=
  EngineM.forM_across (R := Engine.Reports a) (refl a) trans items each s

end Engine.Reports

/-! ## Single actions -/

theorem Memory.live_release {m : Memory} (alive : m.Live a) (other : a ≠ x) : (m.release x).Live a := by
  obtain ⟨b, hb, rfl⟩ := alive
  exact ⟨b, mem_blocks_release.mpr ⟨hb, other⟩, rfl⟩

theorem Memory.live_write {m : Memory} (alive : m.Live a) (x : UInt64) (bytes : List UInt8) : (m.write x bytes).Live a := by
  cases found : m.reach? x with
  | none =>
      have same : m.write x bytes = m := by simp only [write, found]
      rwa [same]
  | some p =>
      obtain ⟨b, o⟩ := p
      obtain ⟨hb, reached, -⟩ := reach?_some_iff.mp found
      exact (write_evolves hb reached bytes).live alive

theorem Memory.live_release_iff {m : Memory} : (m.release a).Live x ↔ m.Live x ∧ x ≠ a := by
  constructor
  · rintro ⟨b, hb, rfl⟩
    obtain ⟨member, other⟩ := mem_blocks_release.mp hb
    exact ⟨⟨b, member, rfl⟩, other⟩
  · exact fun ⟨alive, other⟩ => live_release alive other

theorem Memory.live_write_iff {m : Memory} {bytes : List UInt8} : (m.write a bytes).Live x ↔ m.Live x := by
  constructor
  · rintro ⟨b, hb, rfl⟩
    obtain ⟨c, hc, base, -⟩ := exists_of_mem_write hb
    exact ⟨c, hc, by rw [Block.address, base, Block.address]⟩
  · exact fun alive => live_write alive a bytes

namespace EngineM

theorem writeBytes_spares (a x : UInt64) (bytes : List UInt8) (s : Engine) : s.Spares a (writeBytes x bytes s).2 :=
  ⟨⟨[], rfl, by simp [losses]⟩, fun alive => Memory.live_write alive x bytes, rfl,
    Nat.le_of_eq (Memory.frontier_write _ _ _).symm⟩

theorem store_spares (a : UInt64) (t : NativeType) (x : UInt64) (slot : Slot) (s : Engine) :
    s.Spares a (store t x slot s).2 :=
  writeBytes_spares a x (slot.toBytes t) s

theorem allocate_spares (a : UInt64) (size : Nat) (s : Engine) : s.Spares a (allocate size s).2 := by
  rcases made : allocate size s with ⟨_ | b, s'⟩
  · rw [allocate_none made]
    exact .refl a s
  · obtain ⟨memory, allocated, rfl⟩ := allocate_some made
    exact .of_forward (t := [_]) rfl rfl (Memory.allocateEngine?_evolves allocated) rfl

theorem unreserve_spares (other : a ≠ x) (s : Engine) : s.Spares a (unreserve x s).2 :=
  ⟨⟨[], rfl, by simp [losses]⟩, fun alive => Memory.live_release alive other, rfl, Nat.le_refl _⟩

/-- A release is reported, whatever it releases. -/
theorem release_reports (a x : UInt64) (counted : Bool) (s : Engine) : s.Reports a (release x counted s).2 := by
  obtain ⟨counters, -, same⟩ := release_eq x counted s
  rw [same]
  refine ⟨⟨[_], rfl, fun alive => ?_⟩, rfl, Nat.le_refl _⟩
  by_cases here : a = x
  · exact Or.inr (by simp [here, losses, Event.lost?])
  · exact Or.inl (Memory.live_release alive here)

theorem release_spares (other : a ≠ x) (counted : Bool) (s : Engine) : s.Spares a (release x counted s).2 :=
  (release_reports a x counted s).spares (release_givesUp x counted s) (by simpa using other)

theorem log_spares (a : UInt64) (entry : LogEntry) (s : Engine) : s.Spares a (log entry s).2 :=
  .of_memory (t := [_]) rfl rfl rfl rfl

theorem letGo_spares (a : UInt64) (callable : Nat) (s : Engine) : s.Spares a (letGo callable s).2 := by
  obtain ⟨t, callables, functions, -, losses, same⟩ := letGo_eq callable s
  rw [same]
  exact .of_memory rfl losses rfl rfl

theorem makeCallback_spares (a : UInt64) {callable : Nat} {signature : Signature} {scope : Scope} {made : Callback}
    (run : makeCallback callable signature scope s = (.ok made, s')) : s.Spares a s' := by
  obtain ⟨b, memory, found, rfl, rfl⟩ := makeCallback_ok run
  exact .of_forward (t := [_]) rfl rfl (Memory.allocate?_evolves found) rfl

theorem destroyCallback_spares {callback : Callback} (other : a ≠ callback.token) (s : Engine) :
    s.Spares a (destroyCallback callback s).2 := by
  rw [destroyCallback_eq]
  refine .trans ?_ (letGo_spares a callback.callable _)
  exact ⟨⟨[_], rfl, by simp [losses, Event.lost?]⟩, fun alive => Memory.live_release alive other, rfl, Nat.le_refl _⟩

theorem notifyDestroyed_spares (other : a ≠ x) (s : Engine) : s.Spares a (notifyDestroyed x s).2 := by
  unfold notifyDestroyed
  rw [run_get]
  split
  · rw [run_bind]
    have unregistered : s.Spares a { s with durable := s.durable.filter (· != x) } :=
      .of_memory (t := []) rfl rfl rfl rfl
    refine unregistered.trans ?_
    cases found : s.callbacks.find? (·.token == x) with
    | none => exact .refl a _
    | some callback =>
        have token : callback.token = x := by simpa using List.find?_some found
        exact destroyCallback_spares (by rw [token]; exact other) _
  · exact .refl a s

end EngineM

end Ferry
