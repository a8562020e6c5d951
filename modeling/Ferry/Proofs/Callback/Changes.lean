import Ferry.Callback.Lifetime
import Ferry.Proofs.Engine.Untouched
import Mathlib.Data.List.Nodup

/-!
# How callbacks come and go

What the actions do that make and end callbacks, as two relations: `Engine.Makes` says which callbacks are new in the
second of two states, and `Engine.Drops` which ones are destroyed between them, each once. Neither concerns the
registry. Registering a list of callbacks only adds their tokens to it, and giving them back takes them out again.
-/

set_option autoImplicit false

namespace Ferry

namespace Engine

/-- Just the listed callbacks are new in the second state, under the next numbers. While there is room for another one,
each lies behind everything that was there before it. -/
structure Makes (s : Engine) (h : List Callback) (s' : Engine) : Prop where
  callbacks : s'.callbacks = h.reverse ++ s.callbacks
  durable : s'.durable = s.durable
  nextCallback : s'.nextCallback = s.nextCallback + h.length
  serials : h.map (·.serial) = List.range' s.nextCallback h.length
  destroyed : s'.destroyed = s.destroyed
  frontier_le : s.memory.frontier ≤ s'.memory.frontier
  placed : s'.memory.frontier + 16 ≤ Memory.limit → (h.map (·.token.toNat)).Pairwise (· < ·) ∧
    ∀ c ∈ h, s.memory.frontier ≤ c.token.toNat ∧ c.token.toNat < s'.memory.frontier
  plans : s.PlansCoherent → s'.PlansCoherent

/-- Between the two states just the listed callbacks are destroyed, each of them once. -/
structure Drops (s : Engine) (h : List Callback) (s' : Engine) : Prop where
  callbacks : s'.callbacks = s.callbacks.filter fun c => decide (c.serial ∉ h.map (·.serial))
  durable : s'.durable = s.durable
  nextCallback : s'.nextCallback = s.nextCallback
  destroyed : s'.destroyed.Perm (h.map (·.serial) ++ s.destroyed)
  frontier_le : s.memory.frontier ≤ s'.memory.frontier
  plans : s.PlansCoherent → s'.PlansCoherent

/-- Callbacks may be gone in the second state, but none is new. -/
structure Thins (s s' : Engine) : Prop where
  callbacks : s'.callbacks.Sublist s.callbacks
  frontier_le : s.memory.frontier ≤ s'.memory.frontier
  plans : s.PlansCoherent → s'.PlansCoherent

/-- The callbacks that the tokens in the registry lead to. -/
def registered (s : Engine) : List Callback :=
  s.durable.flatMap fun t => (s.callbacks.find? fun c : Callback => c.token == t).toList

/-- The tokens of live callbacks are distinct. -/
def Distinct (s : Engine) : Prop := (s.callbacks.map (·.token)).Nodup

variable {s s' s'' : Engine} {h h' : List Callback}

theorem Distinct.find? (distinct : s.Distinct) {c : Callback} (live : c ∈ s.callbacks) :
    s.callbacks.find? (·.token == c.token) = some c := by
  cases found : s.callbacks.find? (·.token == c.token) with
  | none => exact absurd (List.find?_eq_none.mp found c live) (by simp)
  | some x =>
      have same : x.token = c.token := by simpa using List.find?_some found
      rw [List.inj_on_of_nodup_map distinct (List.mem_of_find?_eq_some found) live same]

theorem Untouched.drops (untouched : s.Untouched s') : s.Drops [] s' where
  callbacks := by
    rw [untouched.callbacks]
    exact (List.filter_eq_self.mpr (by simp)).symm
  durable := untouched.durable
  nextCallback := untouched.nextCallback
  destroyed := by simp [untouched.destroyed]
  frontier_le := untouched.frontier_le
  plans := untouched.plans

theorem Untouched.makes (untouched : s.Untouched s') : s.Makes [] s' where
  callbacks := by simp [untouched.callbacks]
  durable := untouched.durable
  nextCallback := untouched.nextCallback
  serials := rfl
  destroyed := untouched.destroyed
  frontier_le := untouched.frontier_le
  placed _ := ⟨.nil, by simp⟩
  plans := untouched.plans

namespace Makes

theorem trans (first : s.Makes h s') (second : s'.Makes h' s'') : s.Makes (h ++ h') s'' where
  callbacks := by simp [second.callbacks, first.callbacks]
  durable := second.durable.trans first.durable
  nextCallback := by
    rw [second.nextCallback, first.nextCallback, List.length_append]
    omega
  serials := by
    rw [List.map_append, first.serials, second.serials, first.nextCallback, List.length_append]
    simp
  destroyed := second.destroyed.trans first.destroyed
  frontier_le := Nat.le_trans first.frontier_le second.frontier_le
  placed room := by
    have between := second.frontier_le
    have before := first.frontier_le
    obtain ⟨apart, places⟩ := first.placed (by omega)
    obtain ⟨apart', places'⟩ := second.placed room
    constructor
    · rw [List.map_append, List.pairwise_append]
      refine ⟨apart, apart', fun a ha b hb => ?_⟩
      obtain ⟨c, hc, rfl⟩ := List.mem_map.mp ha
      obtain ⟨c', hc', rfl⟩ := List.mem_map.mp hb
      exact Nat.lt_of_lt_of_le (places c hc).2 (places' c' hc').1
    · intro c hc
      rcases List.mem_append.mp hc with old | new
      · have := places c old
        omega
      · have := places' c new
        omega
  plans coherent := second.plans (first.plans coherent)

theorem mem_callbacks (makes : s.Makes h s') {c : Callback} : c ∈ s'.callbacks ↔ c ∈ h ∨ c ∈ s.callbacks := by
  simp [makes.callbacks]

theorem nextCallback_le (makes : s.Makes h s') : s.nextCallback ≤ s'.nextCallback := by
  rw [makes.nextCallback]
  exact Nat.le_add_right _ _

theorem serial_between (makes : s.Makes h s') {c : Callback} (hc : c ∈ h) :
    s.nextCallback ≤ c.serial ∧ c.serial < s'.nextCallback := by
  have listed : c.serial ∈ h.map (·.serial) := List.mem_map.mpr ⟨c, hc, rfl⟩
  rw [makes.serials, List.mem_range'_1] at listed
  rw [makes.nextCallback]
  exact listed

theorem nodup_serials (makes : s.Makes h s') : (h.map (·.serial)).Nodup := by
  rw [makes.serials]
  exact List.nodup_range'

end Makes

namespace Drops

theorem trans (first : s.Drops h s') (second : s'.Drops h' s'') : s.Drops (h ++ h') s'' where
  callbacks := by
    rw [second.callbacks, first.callbacks, List.filter_filter]
    refine List.filter_congr fun c _ => ?_
    simp only [List.map_append, List.mem_append, not_or, Bool.decide_and]
    exact Bool.and_comm _ _
  durable := second.durable.trans first.durable
  nextCallback := second.nextCallback.trans first.nextCallback
  destroyed := by
    refine second.destroyed.trans ?_
    refine ((first.destroyed.append_left _).trans ?_)
    rw [List.map_append, ← List.append_assoc]
    exact List.perm_append_comm.append_right _
  frontier_le := Nat.le_trans first.frontier_le second.frontier_le
  plans coherent := second.plans (first.plans coherent)

theorem trans_untouched (first : s.Drops h s') (second : s'.Untouched s'') : s.Drops h s'' := by
  have both := first.trans second.drops
  rwa [List.append_nil] at both

theorem thins (drops : s.Drops h s') : s.Thins s' := by
  refine ⟨?_, drops.frontier_le, drops.plans⟩
  rw [drops.callbacks]
  exact List.filter_sublist

theorem distinct (drops : s.Drops h s') (distinct : s.Distinct) : s'.Distinct :=
  List.Nodup.sublist (drops.thins.callbacks.map _) distinct

theorem with_durable (drops : s.Drops h s') (d : List UInt64) :
    { s with durable := d }.Drops h { s' with durable := d } :=
  ⟨drops.callbacks, rfl, drops.nextCallback, drops.destroyed, drops.frontier_le, fun coherent =>
    have kept := drops.plans ⟨coherent.1, coherent.2⟩
    ⟨kept.1, kept.2⟩⟩

end Drops

namespace Thins

theorem refl (s : Engine) : s.Thins s := ⟨.refl _, Nat.le_refl _, id⟩

theorem trans (first : s.Thins s') (second : s'.Thins s'') : s.Thins s'' where
  callbacks := second.callbacks.trans first.callbacks
  frontier_le := Nat.le_trans first.frontier_le second.frontier_le
  plans coherent := second.plans (first.plans coherent)

theorem durable (s : Engine) (d : List UInt64) : s.Thins { s with durable := d } :=
  ⟨.refl _, Nat.le_refl _, fun coherent => ⟨coherent.1, coherent.2⟩⟩

end Thins

end Engine

namespace EngineM

variable {s s' : Engine}

theorem makeCallback_makes {callable : Nat} {signature : Signature} {scope : Scope} {c : Callback}
    (made : makeCallback callable signature scope s = (.ok c, s')) : s.Makes [c] s' := by
  obtain ⟨a, memory, found, rfl, rfl⟩ := makeCallback_ok made
  obtain ⟨place, -, -, next, -⟩ := Memory.allocate?_some found
  refine ⟨rfl, rfl, rfl, rfl, rfl, Nat.le_of_lt next, fun _ => ⟨by simp, fun c hc => ?_⟩, fun h => ⟨h.1, h.2⟩⟩
  rw [List.mem_singleton.mp hc]
  exact ⟨Nat.le_of_eq place.symm, Nat.lt_of_le_of_lt (Nat.le_of_eq place) next⟩

theorem destroyCallback_drops (c : Callback) (s : Engine) : s.Drops [c] (destroyCallback c s).2 := by
  have ended : s.Drops [c] (s.withoutCallback c) := by
    refine ⟨?_, rfl, rfl, .refl _, Nat.le_of_eq (Memory.frontier_release _ _).symm, fun h => ⟨h.1, h.2⟩⟩
    refine List.filter_congr fun x _ => ?_
    simp [bne, BEq.beq]
  rw [destroyCallback_eq]
  exact ended.trans_untouched (quiet_letGo c.callable _)

/-- Callbacks that a list of items leads to are destroyed one after the other. -/
theorem forM_drops {α : Type} {act : α → EngineM Unit} {of : α → List Callback}
    (each : ∀ x (s : Engine), s.Drops (of x) (act x s).2) (items : List α) (s : Engine) :
    s.Drops (items.flatMap of) ((items.forM act : EngineM Unit) s).2 := by
  induction items generalizing s with
  | nil => exact (Engine.Untouched.refl s).drops
  | cons x rest ih => exact (each x s).trans (ih (act x s).2)

theorem forM_thins {α : Type} {act : α → EngineM Unit} (each : ∀ x (s : Engine), s.Thins (act x s).2) (items : List α)
    (s : Engine) : s.Thins ((items.forM act : EngineM Unit) s).2 :=
  forM_across (R := Engine.Thins) .refl .trans items (fun x _ => each x) s

/-! ## The registry -/

theorem registerDurable_thins (c : Callback) (s : Engine) : s.Thins (registerDurable c s).2 := .durable s _

theorem notifyDestroyed_thins (token : UInt64) (s : Engine) : s.Thins (notifyDestroyed token s).2 := by
  unfold notifyDestroyed
  rw [run_get]
  split
  · rw [run_bind]
    refine (Engine.Thins.durable s (s.durable.filter (· != token))).trans ?_
    cases s.callbacks.find? (·.token == token) with
    | none => exact .refl _
    | some c => exact (destroyCallback_drops c _).thins
  · exact .refl s

theorem registerDurable_all {h : List Callback} {s : Engine} (new : ∀ c ∈ h, c.token ∉ s.durable)
    (apart : (h.map (·.token)).Nodup) :
    (h.forM registerDurable : EngineM Unit) s = ((), { s with durable := s.durable ++ h.map (·.token) }) := by
  induction h generalizing s with
  | nil =>
      rw [List.map_nil, List.append_nil]
      rfl
  | cons c rest ih =>
      have other : s.durable.filter (· != c.token) = s.durable := by
        refine List.filter_eq_self.mpr fun t ht => ?_
        have differ : t ≠ c.token := fun same => new c List.mem_cons_self (same ▸ ht)
        simpa using differ
      have first : (registerDurable c s).2 = { s with durable := s.durable ++ [c.token] } := by
        rw [← other]
        rfl
      rw [List.map_cons, List.nodup_cons] at apart
      have later : ∀ x ∈ rest, x.token ∉ s.durable ++ [c.token] := by
        intro x hx
        simp only [List.mem_append, List.mem_singleton, not_or]
        exact ⟨new x (List.mem_cons_of_mem c hx), fun same => apart.1 (List.mem_map.mpr ⟨x, hx, same⟩)⟩
      have steps : ((c :: rest).forM registerDurable : EngineM Unit) s =
          (rest.forM registerDurable : EngineM Unit) (registerDurable c s).2 := rfl
      rw [steps, first, ih (s := { s with durable := s.durable ++ [c.token] }) later apart.2]
      simp [List.append_assoc]

theorem notifyDestroyed_unknown {token : UInt64} (unknown : token ∉ s.durable) : notifyDestroyed token s = ((), s) := by
  unfold notifyDestroyed
  rw [run_get, if_neg (by simpa using unknown)]
  rfl

/-- The one callback that a registered token identifies is destroyed, and the token leaves the registry. -/
theorem notifyDestroyed_known {c : Callback} (registered : c.token ∈ s.durable) (live : c ∈ s.callbacks)
    (distinct : s.Distinct) :
    { s with durable := s.durable.filter (· != c.token) }.Drops [c] (notifyDestroyed c.token s).2 := by
  have found := distinct.find? live
  have steps : (notifyDestroyed c.token s).2 =
      (destroyCallback c { s with durable := s.durable.filter (· != c.token) }).2 := by
    unfold notifyDestroyed
    rw [run_get, if_pos (by simpa using registered), run_bind]
    simp only [found]
    rfl
  rw [steps]
  exact destroyCallback_drops c _

theorem notifyDestroyed_all {h : List Callback} {d : List UInt64} {s : Engine} (registry : s.durable = d ++ h.map (·.token))
    (live : ∀ c ∈ h, c ∈ s.callbacks) (distinct : s.Distinct) (new : ∀ c ∈ h, c.token ∉ d)
    (apart : (h.map (·.token)).Nodup) (serials : (h.map (·.serial)).Nodup) :
    { s with durable := d }.Drops h (((h.map Callback.token).forM notifyDestroyed : EngineM Unit) s).2 := by
  induction h generalizing s with
  | nil =>
      rw [List.map_nil, List.append_nil] at registry
      rw [← registry]
      exact (Engine.Untouched.refl s).drops
  | cons c rest ih =>
      have steps : (((c :: rest).map Callback.token).forM notifyDestroyed : EngineM Unit) s =
          ((rest.map Callback.token).forM notifyDestroyed : EngineM Unit) (notifyDestroyed c.token s).2 := rfl
      rw [List.map_cons, List.nodup_cons] at apart serials
      have first := notifyDestroyed_known (by rw [registry]; simp) (live c List.mem_cons_self) distinct
      have left : s.durable.filter (· != c.token) = d ++ rest.map (·.token) := by
        rw [registry, List.map_cons, List.filter_append, List.filter_cons_of_neg (by simp)]
        congr 1
        · refine List.filter_eq_self.mpr fun t ht => ?_
          have differ : t ≠ c.token := fun same => new c List.mem_cons_self (same ▸ ht)
          simpa using differ
        · refine List.filter_eq_self.mpr fun t ht => ?_
          have differ : t ≠ c.token := fun same => apart.1 (same ▸ ht)
          simpa using differ
      rw [left] at first
      have live' : ∀ x ∈ rest, x ∈ (notifyDestroyed c.token s).2.callbacks := fun x hx => by
        rw [first.callbacks, List.mem_filter]
        refine ⟨live x (List.mem_cons_of_mem c hx), ?_⟩
        have differ : x.serial ≠ c.serial := fun same => serials.1 (List.mem_map.mpr ⟨x, hx, same⟩)
        simpa using differ
      have later := ih first.durable live' (first.distinct distinct)
        (fun x hx => new x (List.mem_cons_of_mem c hx)) apart.2 serials.2
      rw [steps]
      exact (first.with_durable d).trans later

/-- Everything that is registered is destroyed when the registry is cleared. -/
theorem clearDurable_drops (s : Engine) : { s with durable := [] }.Drops s.registered (clearDurable s).2 := by
  unfold clearDurable
  rw [run_get, run_bind]
  refine forM_drops (fun token u => ?_) s.durable { s with durable := [] }
  cases s.callbacks.find? (·.token == token) with
  | none => exact (Engine.Untouched.refl u).drops
  | some c => exact destroyCallback_drops c u

theorem clearDurable_thins (s : Engine) : s.Thins (clearDurable s).2 :=
  (Engine.Thins.durable s []).trans (clearDurable_drops s).thins

end EngineM

end Ferry
