import Ferry.Proofs.Engine.Sparing
import Ferry.Proofs.Marshal.Conversions

/-!
# Dropping what a caller owns

A structure that one handle owns goes when the handle is dropped. So dropping values that own distinct structures,
each of them alone, gives up just the blocks of these structures.
-/

set_option autoImplicit false

namespace Ferry

/-! ## Counting owners -/

theorem lookup_increment_self {key : UInt64} {owners : List (UInt64 × Nat)} (free : owners.lookup key = none) :
    (increment key 1 owners).lookup key = some 1 := by
  induction owners with
  | nil => simp [increment]
  | cons entry rest ih =>
      obtain ⟨k, count⟩ := entry
      have other : k ≠ key := by
        rintro rfl
        simp at free
      have later : rest.lookup key = none := by
        rwa [List.lookup_cons, beq_false_of_ne (Ne.symm other)] at free
      rw [increment, if_neg other, List.lookup_cons, beq_false_of_ne (Ne.symm other)]
      exact ih later

theorem lookup_increment_held {key : UInt64} {owners : List (UInt64 × Nat)} {count : Nat}
    (held : owners.lookup key = some count) : (increment key 1 owners).lookup key = some (count + 1) := by
  induction owners with
  | nil => cases held
  | cons entry rest ih =>
      obtain ⟨k, n⟩ := entry
      by_cases same : k = key
      · subst same
        rw [increment, if_pos rfl]
        simp only [List.lookup_cons, beq_self_eq_true] at held ⊢
        cases held
        rfl
      · rw [increment, if_neg same]
        simp only [List.lookup_cons, beq_false_of_ne (Ne.symm same)] at held ⊢
        exact ih held

theorem lookup_increment_of_ne {key other : UInt64} (apart : other ≠ key) (n : Nat) (owners : List (UInt64 × Nat)) :
    (increment key n owners).lookup other = owners.lookup other := by
  induction owners with
  | nil => simp [increment, apart]
  | cons entry rest ih =>
      obtain ⟨k, count⟩ := entry
      rw [increment]
      by_cases same : k = key
      · subst same
        rw [if_pos rfl, List.lookup_cons, List.lookup_cons, beq_false_of_ne apart]
      · rw [if_neg same, List.lookup_cons, List.lookup_cons, ih]

theorem lookup_filter_of_ne {key other : UInt64} (apart : other ≠ key) (owners : List (UInt64 × Nat)) :
    (owners.filter (·.1 != key)).lookup other = owners.lookup other := by
  induction owners with
  | nil => rfl
  | cons entry rest ih =>
      obtain ⟨k, count⟩ := entry
      by_cases same : k = key
      · subst same
        rw [List.filter_cons_of_neg (by simp), ih, List.lookup_cons, beq_false_of_ne apart]
      · rw [List.filter_cons_of_pos (by simpa using same), List.lookup_cons, List.lookup_cons, ih]

theorem lookup_filter_self (key : UInt64) (owners : List (UInt64 × Nat)) :
    (owners.filter (·.1 != key)).lookup key = none := by
  rw [List.lookup_eq_none_iff]
  intro entry kept
  have other := (List.mem_filter.mp kept).2
  simp only [bne_iff_ne, ne_eq] at other
  exact bne_iff_ne.mpr (Ne.symm other)

namespace EngineM

variable {s : Engine}

theorem disown_last {a : UInt64} (last : s.owners.lookup a = some 1) :
    (disown a s).2 = (release a true { s with owners := s.owners.filter (·.1 != a) }).2 := by
  unfold disown
  rw [run_get, last]
  rfl

/-- An owner that is not the last one leaves the structure to the others. -/
theorem disown_shared {a : UInt64} {n : Nat} (held : s.owners.lookup a = some (n + 2)) :
    (disown a s).2 = { s with owners := (a, n + 1) :: s.owners.filter (·.1 != a) } := by
  unfold disown
  rw [run_get, held]
  simp only [show ¬n + 2 ≤ 1 by omega, if_false]
  rfl

theorem owners_release (a : UInt64) (counted : Bool) (s : Engine) : (release a counted s).2.owners = s.owners := by
  obtain ⟨counters, -, same⟩ := release_eq a counted s
  rw [same]

variable {a x : UInt64}

theorem own_spares (other : a ≠ x) (s : Engine) : s.Spares a (own x s).2 :=
  .of_memory (t := []) rfl rfl rfl (lookup_increment_of_ne other 1 s.owners)

theorem disown_spares (other : a ≠ x) (s : Engine) : s.Spares a (disown x s).2 := by
  unfold disown
  rw [run_get]
  have filtered := lookup_filter_of_ne other s.owners
  cases held : s.owners.lookup x with
  | none => exact .refl a s
  | some count =>
      by_cases last : count ≤ 1
      · simp only [last, if_true]
        have dropped : s.Spares a { s with owners := s.owners.filter (·.1 != x) } :=
          .of_memory (t := []) rfl rfl rfl filtered
        exact dropped.trans (release_spares other true _)
      · simp only [last, if_false]
        refine .of_memory (t := []) rfl rfl rfl ?_
        show ((x, count - 1) :: s.owners.filter (·.1 != x)).lookup a = s.owners.lookup a
        rw [List.lookup_cons, beq_false_of_ne other]
        exact filtered

end EngineM

/-! ## Dropping values -/

mutual

theorem release_spares (v : Value) {a : UInt64} (other : a ∉ v.owned) (s : Engine) : s.Spares a (v.release s).2 := by
  cases v with
  | array items =>
      simp only [Value.release]
      exact releaseAll_spares items (by rwa [Value.owned] at other) s
  | boxed b =>
      simp only [Value.release]
      by_cases owned : b.owned = true
      · simp only [Value.owned, owned, if_true, List.mem_singleton] at other ⊢
        exact EngineM.disown_spares other s
      · simp only [owned, Bool.false_eq_true, if_false]
        exact .refl a s
  | function f =>
      simp only [Value.release]
      exact EngineM.letGo_spares a f.id s
  | _ => exact .refl a s

theorem releaseAll_spares (values : List Value) {a : UInt64} (other : a ∉ Value.ownedAll values) (s : Engine) :
    s.Spares a (Value.releaseAll values s).2 := by
  cases values with
  | nil => exact .refl a s
  | cons v rest =>
      rw [Value.ownedAll, List.mem_append, not_or] at other
      rw [releaseAll_cons]
      exact (release_spares v other.1 s).trans (releaseAll_spares rest other.2 _)

end

/-- A value that owns nothing, or a single structure. -/
inductive Value.Plain : Value → Prop
  | idle (v : Value) (idle : v.Idle) : Plain v
  | owner (layout : Layout) (a : UInt64) : Plain (.boxed ⟨layout, a, true⟩)

theorem ownedAll_append (values others : List Value) :
    Value.ownedAll (values ++ others) = Value.ownedAll values ++ Value.ownedAll others := by
  induction values with
  | nil => rfl
  | cons v rest ih => rw [List.cons_append, Value.ownedAll, Value.ownedAll, ih, List.append_assoc]

theorem ownedAll_reverse_perm (values : List Value) :
    (Value.ownedAll values.reverse).Perm (Value.ownedAll values) := by
  induction values with
  | nil => exact .refl _
  | cons v rest ih =>
      rw [List.reverse_cons, ownedAll_append]
      simp only [Value.ownedAll, List.append_nil]
      exact (ih.append_right _).trans List.perm_append_comm

/-- What a value owns alone goes when it is dropped, and nothing else comes to have another owner. -/
theorem release_givesUp {v : Value} (plain : v.Plain) (s : Engine)
    (alone : ∀ a ∈ v.owned, s.owners.lookup a = some 1) :
    s.GivesUp (v.owned.map .block) (v.release s).2 ∧
      ∀ a, a ∉ v.owned → (v.release s).2.owners.lookup a = s.owners.lookup a := by
  cases plain with
  | idle _ idle =>
      rw [idle.owned, idle.release]
      exact ⟨.refl s, fun _ _ => rfl⟩
  | owner layout a =>
      have owned : (Value.boxed ⟨layout, a, true⟩).owned = [a] := by simp [Value.owned]
      have released : ((Value.boxed ⟨layout, a, true⟩).release s).2 =
          (EngineM.release a true { s with owners := s.owners.filter (·.1 != a) }).2 := by
        simp only [Value.release, if_true]
        exact EngineM.disown_last (alone a (by rw [owned]; exact List.mem_singleton.mpr rfl))
      rw [owned, released]
      refine ⟨?_, fun b other => ?_⟩
      · have quiet : s.Moves [] [] { s with owners := s.owners.filter (·.1 != a) } :=
          ⟨⟨[], rfl, .refl _, .refl _⟩, Nat.le_refl _, Nat.le_refl _, by simp, .nil, rfl, fun b free => by
            by_cases same : b = a
            · subst same
              exact lookup_filter_self b s.owners
            · rw [lookup_filter_of_ne same]
              exact free⟩
        have step := EngineM.release_givesUp a true { s with owners := s.owners.filter (·.1 != a) }
        exact ⟨quiet.trans step.moves, step.chunks⟩
      · rw [EngineM.owners_release]
        exact lookup_filter_of_ne (by simpa using other) _

theorem releaseAll_givesUp {values : List Value} (plain : ∀ v ∈ values, v.Plain) (s : Engine)
    (distinct : (Value.ownedAll values).Nodup) (alone : ∀ a ∈ Value.ownedAll values, s.owners.lookup a = some 1) :
    s.GivesUp ((Value.ownedAll values).map .block) (Value.releaseAll values s).2 := by
  induction values generalizing s with
  | nil => exact .refl s
  | cons v rest ih =>
      simp only [Value.ownedAll] at distinct alone ⊢
      obtain ⟨-, later, apart⟩ := List.nodup_append.mp distinct
      obtain ⟨first, kept⟩ := release_givesUp (plain v List.mem_cons_self) s fun a ha =>
        alone a (List.mem_append_left _ ha)
      rw [releaseAll_cons, List.map_append]
      refine first.trans (ih (fun w hw => plain w (List.mem_cons_of_mem v hw)) _ later fun a ha => ?_)
      rw [kept a fun early => apart a early a ha rfl]
      exact alone a (List.mem_append_right _ ha)

/-! ## Clones of one handle -/

/-- The structure at `a` stays as it is while one handle after the other is dropped, and goes with the last of them, once. -/
structure Engine.GoesWithLast (s : Engine) (a : UInt64) (layout : Layout) (handles : Nat) : Prop where
  before : ∀ k < handles, (Value.releaseAll (List.replicate k (.boxed ⟨layout, a, true⟩)) s).2.memory = s.memory ∧
    (Value.releaseAll (List.replicate k (.boxed ⟨layout, a, true⟩)) s).2.events = s.events
  last : ∃ t, (Value.releaseAll (List.replicate handles (.boxed ⟨layout, a, true⟩)) s).2.events = t ++ s.events ∧
    losses t = [.block a] ∧ ¬(Value.releaseAll (List.replicate handles (.boxed ⟨layout, a, true⟩)) s).2.memory.Live a

theorem goesWithLast {s : Engine} {a : UInt64} {n : Nat} (owned : s.owners.lookup a = some (n + 1)) (layout : Layout) :
    s.GoesWithLast a layout (n + 1) := by
  have first : ∀ k s, Value.releaseAll (List.replicate (k + 1) (.boxed ⟨layout, a, true⟩)) s =
      Value.releaseAll (List.replicate k (.boxed ⟨layout, a, true⟩)) (EngineM.disown a s).2 := fun k s => by
    rw [List.replicate_succ, releaseAll_cons]
    rfl
  induction n generalizing s with
  | zero =>
      refine ⟨fun k none_yet => ?_, ?_⟩
      · obtain rfl : k = 0 := by omega
        exact ⟨rfl, rfl⟩
      · rw [first, EngineM.disown_last owned]
        obtain ⟨counters, -, released⟩ := EngineM.release_eq a true { s with owners := s.owners.filter (·.1 != a) }
        rw [released]
        refine ⟨[_], rfl, by simp [losses, Event.lost?], ?_⟩
        rintro ⟨b, hb, rfl⟩
        exact (Memory.mem_blocks_release.mp hb).2 rfl
  | succ n ih =>
      have dropped := EngineM.disown_shared owned
      have left := ih (s := (EngineM.disown a s).2) (by rw [dropped]; simp)
      have same : (EngineM.disown a s).2.memory = s.memory ∧ (EngineM.disown a s).2.events = s.events := by
        rw [dropped]
        exact ⟨rfl, rfl⟩
      refine ⟨fun k earlier => ?_, ?_⟩
      · cases k with
        | zero => exact ⟨rfl, rfl⟩
        | succ k =>
            rw [first, ← same.1, ← same.2]
            exact left.before k (by omega)
      · rw [first, ← same.2]
        exact left.last

end Ferry
