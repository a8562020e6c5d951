import Ferry.Proofs.Marshal.Dropping

/-!
# Conversions that may fail

A conversion from a native value may make copies of structures, and if it fails, it gives up the copies again.
Whichever way it ends, nothing that was there before is given up or changed: `fromNative_copies`. Dropping a value
gives up nothing but what the value owns: `release_drops`.
-/

set_option autoImplicit false

namespace Ferry

/-- Chunks stay as they are, except for the touched ones. -/
def Memory.Remains (touched : List UInt64) (m m' : Memory) : Prop :=
  ∀ b ∈ m.chunks, b.address ∉ touched → b ∈ m'.chunks

/-- Chunks stay as they are, except for the touched ones, and nothing is released but what is new or among the given
blocks. Every other block is spared, unless it is one of those that go in silence. Nobody comes to own what is
neither made nor given. -/
structure Engine.Leaves (s : Engine) (given touched silent : List UInt64) (s' : Engine) : Prop where
  events : ∃ t, s'.events = t ++ s.events ∧
    ∀ r ∈ losses t, ∃ a, r = .block a ∧ (s.memory.frontier ≤ a.toNat ∨ a ∈ given)
  frontier_le : s.memory.frontier ≤ s'.memory.frontier
  remains : s.memory.Remains touched s'.memory
  spares : ∀ a, a.toNat < s.memory.frontier → a ∉ given → a ∉ silent → s.Spares a s'
  unowned : ∀ a, s'.memory.frontier ≤ a.toNat → a ∉ given → s.owners.lookup a = none → s'.owners.lookup a = none

namespace Engine.Leaves

variable {s s' s'' : Engine} {given touched silent lost : List UInt64}

theorem refl (s : Engine) (given touched silent : List UInt64) : s.Leaves given touched silent s :=
  ⟨⟨[], rfl, by simp [losses]⟩, Nat.le_refl _, fun _ hb _ => hb, fun a _ _ _ => .refl a s, fun _ _ _ free => free⟩

theorem trans (first : s.Leaves given touched silent s') (second : s'.Leaves given touched silent s'') :
    s.Leaves given touched silent s'' := by
  obtain ⟨t, events, spent⟩ := first.events
  obtain ⟨t', events', spent'⟩ := second.events
  refine ⟨⟨t' ++ t, by rw [events', events, List.append_assoc], fun r hr => ?_⟩,
    Nat.le_trans first.frontier_le second.frontier_le,
    fun b hb out => second.remains b (first.remains b hb out) out,
    fun a old kept loud => (first.spares a old kept loud).trans
      (second.spares a (Nat.lt_of_lt_of_le old first.frontier_le) kept loud),
    fun a behind kept free =>
      second.unowned a behind kept (first.unowned a (Nat.le_trans second.frontier_le behind) kept free)⟩
  rw [losses_append] at hr
  rcases List.mem_append.mp hr with late | early
  · obtain ⟨a, same, new | listed⟩ := spent' r late
    · exact ⟨a, same, Or.inl (Nat.le_trans first.frontier_le new)⟩
    · exact ⟨a, same, Or.inr listed⟩
  · exact spent r early

theorem of_nil (h : s.Leaves [] [] [] s') : s.Leaves given touched silent s' := by
  obtain ⟨t, events, spent⟩ := h.events
  refine ⟨⟨t, events, fun r hr => ?_⟩, h.frontier_le, fun b hb _ => h.remains b hb (by simp),
    fun a old _ _ => h.spares a old (by simp) (by simp), fun a behind _ => h.unowned a behind (by simp)⟩
  obtain ⟨a, same, known⟩ := spent r hr
  exact ⟨a, same, known.imp_right (by simp)⟩

theorem of_given (h : s.Leaves given [] [] s') : s.Leaves given touched silent s' :=
  ⟨h.events, h.frontier_le, fun b hb _ => h.remains b hb (by simp), fun a old kept _ => h.spares a old kept (by simp),
    h.unowned⟩

theorem givesUp (h : s.Leaves given touched silent s') (step : s'.GivesUp (lost.map .block) s'')
    (allowed : ∀ a ∈ lost, s.memory.frontier ≤ a.toNat ∨ a ∈ given)
    (others : ∀ a, a.toNat < s.memory.frontier → a ∉ given → a ∉ silent → s'.Spares a s'') :
    s.Leaves given touched silent s'' := by
  obtain ⟨t, events, spent⟩ := h.events
  obtain ⟨t', events', -, same⟩ := step.moves.events
  refine ⟨⟨t' ++ t, by rw [events', events, List.append_assoc], fun r hr => ?_⟩,
    Nat.le_trans h.frontier_le step.moves.frontier_le, fun b hb out => (step.chunks b).mpr (h.remains b hb out),
    fun a old kept loud => (h.spares a old kept loud).trans (others a old kept loud),
    fun a behind kept free => step.moves.unowned a (h.unowned a (Nat.le_trans step.moves.frontier_le behind) kept free)⟩
  rw [losses_append] at hr
  rcases List.mem_append.mp hr with late | early
  · obtain ⟨a, ha, rfl⟩ := List.mem_map.mp (same.mem_iff.mp late)
    exact ⟨a, rfl, allowed a ha⟩
  · exact spent r early

end Engine.Leaves

/-- Every block that was made in the one state is spared on the way to the other, and nobody comes to own what is not made. -/
structure Engine.SparesOld (s s' : Engine) : Prop where
  events : ∃ t, s'.events = t ++ s.events
  frontier_le : s.memory.frontier ≤ s'.memory.frontier
  spares : ∀ a, a.toNat < s.memory.frontier → s.Spares a s'
  unowned : ∀ a, s'.memory.frontier ≤ a.toNat → s.owners.lookup a = none → s'.owners.lookup a = none

namespace Engine.SparesOld

variable {s s' s'' : Engine}

theorem refl (s : Engine) : s.SparesOld s :=
  ⟨⟨[], rfl⟩, Nat.le_refl _, fun a _ => .refl a s, fun _ _ free => free⟩

theorem trans (first : s.SparesOld s') (second : s'.SparesOld s'') : s.SparesOld s'' where
  events := by
    obtain ⟨t, events⟩ := first.events
    obtain ⟨t', events'⟩ := second.events
    exact ⟨t' ++ t, by rw [events', events, List.append_assoc]⟩
  frontier_le := Nat.le_trans first.frontier_le second.frontier_le
  spares a old := (first.spares a old).trans (second.spares a (Nat.lt_of_lt_of_le old first.frontier_le))
  unowned a behind free := second.unowned a behind (first.unowned a (Nat.le_trans second.frontier_le behind) free)

theorem of_leaves (left : s.Leaves [] [] [] s') : s.SparesOld s' where
  events := left.events.imp fun _ told => told.1
  frontier_le := left.frontier_le
  spares a old := left.spares a old (by simp) (by simp)
  unowned a behind free := left.unowned a behind (by simp) free

theorem of_spares (spares : ∀ a, s.Spares a s') : s.SparesOld s' where
  events := (spares 0).events.imp fun _ told => told.1
  frontier_le := (spares 0).frontier_le
  spares a _ := spares a
  unowned a _ free := (spares a).owners.trans free

theorem givesUp {lost : List Resource} (h : s.SparesOld s') (step : s'.GivesUp lost s'')
    (spares : ∀ a, a.toNat < s.memory.frontier → s'.Spares a s'') : s.SparesOld s'' where
  events := by
    obtain ⟨t, events⟩ := h.events
    obtain ⟨t', events', -⟩ := step.moves.events
    exact ⟨t' ++ t, by rw [events', events, List.append_assoc]⟩
  frontier_le := Nat.le_trans h.frontier_le step.moves.frontier_le
  spares a old := (h.spares a old).trans (spares a old)
  unowned a behind free :=
    step.moves.unowned a (h.unowned a (Nat.le_trans step.moves.frontier_le behind) free)

end Engine.SparesOld

variable {s s' : Engine}

/-! ## Dropping -/

theorem disown_drops (a : UInt64) (s : Engine) :
    ∃ lost : List UInt64, (∀ b ∈ lost, b = a) ∧ s.GivesUp (lost.map .block) (EngineM.disown a s).2 := by
  unfold EngineM.disown
  rw [EngineM.run_get]
  -- forgetting an owner shows in nothing but the list of owners
  have quiet : ∀ owners : List (UInt64 × Nat), (∀ b, s.owners.lookup b = none → owners.lookup b = none) →
      s.GivesUp [] { s with owners } := fun owners kept =>
    ⟨⟨⟨[], rfl, .refl _, .refl _⟩, Nat.le_refl _, Nat.le_refl _, by simp, .nil, rfl, kept⟩, fun _ => .rfl⟩
  cases held : s.owners.lookup a with
  | none => exact ⟨[], by simp, .refl s⟩
  | some count =>
      have others : ∀ b, s.owners.lookup b = none → (s.owners.filter (·.1 != a)).lookup b = none := by
        intro b free
        have apart : b ≠ a := by
          rintro rfl
          rw [held] at free
          cases free
        rw [lookup_filter_of_ne apart]
        exact free
      by_cases last : count ≤ 1
      · simp only [last, if_true]
        refine ⟨[a], by simp, ?_⟩
        exact (quiet _ others).trans (EngineM.release_givesUp a true { s with owners := s.owners.filter (·.1 != a) })
      · simp only [last, if_false]
        refine ⟨[], by simp, quiet _ fun b free => ?_⟩
        have apart : (b == a) = false := by
          refine beq_false_of_ne ?_
          rintro rfl
          rw [held] at free
          cases free
        rw [List.lookup_cons, apart]
        exact others b free

mutual

/-- Dropping a value gives up nothing but what the value owns. -/
theorem release_drops (v : Value) (s : Engine) :
    ∃ lost : List UInt64, (∀ a ∈ lost, a ∈ v.owned) ∧ s.GivesUp (lost.map .block) (v.release s).2 := by
  cases v with
  | array items =>
      simp only [Value.release, Value.owned]
      exact releaseAll_drops items s
  | boxed b =>
      simp only [Value.release, Value.owned]
      by_cases owned : b.owned = true
      · simp only [owned, if_true]
        obtain ⟨lost, only, step⟩ := disown_drops b.address s
        exact ⟨lost, fun a ha => List.mem_singleton.mpr (only a ha), step⟩
      · simp only [owned, Bool.false_eq_true, if_false]
        exact ⟨[], by simp, .refl s⟩
  | function f =>
      simp only [Value.release]
      obtain ⟨t, callables, functions, gains, losses, same⟩ := EngineM.letGo_eq f.id s
      refine ⟨[], by simp, ?_⟩
      rw [same]
      exact ⟨(Engine.Moves.refl s).quiet rfl gains losses (Nat.le_refl _) rfl rfl rfl, fun _ => .rfl⟩
  | _ => exact ⟨[], by simp, .refl s⟩

theorem releaseAll_drops (values : List Value) (s : Engine) :
    ∃ lost : List UInt64, (∀ a ∈ lost, a ∈ Value.ownedAll values) ∧
      s.GivesUp (lost.map .block) (Value.releaseAll values s).2 := by
  cases values with
  | nil => exact ⟨[], by simp, .refl s⟩
  | cons v rest =>
      obtain ⟨lost, only, first⟩ := release_drops v s
      obtain ⟨lost', only', later⟩ := releaseAll_drops rest (v.release s).2
      refine ⟨lost ++ lost', fun a ha => ?_, ?_⟩
      · rw [Value.ownedAll]
        exact (List.mem_append.mp ha).elim (fun h => List.mem_append_left _ (only a h)) fun h =>
          List.mem_append_right _ (only' a h)
      · rw [releaseAll_cons, List.map_append]
        exact first.trans later

end

theorem mem_ownedAll {values : List Value} {a : UInt64} :
    a ∈ Value.ownedAll values ↔ ∃ v ∈ values, a ∈ v.owned := by
  induction values with
  | nil => simp [Value.ownedAll]
  | cons v rest ih => simp [Value.ownedAll, ih]

theorem mem_ownedAll_reverse {values : List Value} {a : UInt64} :
    a ∈ Value.ownedAll values.reverse ↔ a ∈ Value.ownedAll values :=
  (ownedAll_reverse_perm values).mem_iff

/-! ## Reading -/

/-- A conversion that may make copies: it leaves what was there, and the value that it yields owns nothing but
what is new. -/
def Copies (act : MarshalM Value) : Prop :=
  ∀ s, s.Leaves [] [] [] (act s).2 ∧ ∀ v, (act s).1 = .ok v → ∀ a ∈ v.owned, s.memory.frontier ≤ a.toNat

theorem Reads.copies {act : MarshalM Value} (h : Reads act) : Copies act := by
  intro s
  obtain ⟨same, idle⟩ := h s
  rw [same]
  refine ⟨.refl s [] [] [], fun v yields a ha => ?_⟩
  rw [(idle v yields).owned] at ha
  cases ha

theorem copyStructure_leaves {layout : Layout} {a : UInt64} {r : Except MarshalError Boxed}
    (run : copyStructure layout a s = (r, s')) :
    s.Leaves [] [] [] s' ∧ ∀ b, r = .ok b → s.memory.frontier ≤ b.address.toNat := by
  have copied : ∀ b, r = .ok b → s.memory.Evolves [] s'.memory := by
    rintro b rfl
    exact copyStructure_evolves run
  unfold copyStructure at run
  rw [EngineM.failing_lift] at run
  rcases made : EngineM.allocate layout.size s with ⟨result, s₁⟩
  rw [made] at run
  cases result with
  | none =>
      cases run
      rw [EngineM.allocate_none made]
      exact ⟨.refl s [] [] [], by simp⟩
  | some block =>
      obtain ⟨t, events, -, none⟩ := (EngineM.allocate_moves made).events
      obtain ⟨-, base⟩ := allocate_evolves made
      have below : block.toNat < s₁.memory.frontier :=
        ((EngineM.allocate_moves made).between (.block block) (List.mem_singleton_self _)).2
      cases run
      have forward := copied _ rfl
      have spares : ∀ x ≠ block,
          s.Spares x (EngineM.own block (EngineM.writeBytes block (s₁.memory.read a layout.size) s₁).2).2 := fun x other => by
        have allocated := EngineM.allocate_spares x layout.size s
        rw [made] at allocated
        exact (allocated.trans (EngineM.writeBytes_spares x block _ s₁)).trans (EngineM.own_spares other _)
      refine ⟨⟨⟨t, events, fun r hr => ?_⟩, forward.frontier_le, fun b hb _ => forward.mem_chunks hb (by simp),
        fun x old _ _ => spares x ?_, fun x behind _ free => (spares x ?_).owners.trans free⟩, ?_⟩
      · have impossible := none.mem_iff.mp hr
        cases impossible
      · rintro rfl
        omega
      · rintro rfl
        have behind : (s₁.memory.write x (s₁.memory.read a layout.size)).frontier ≤ x.toNat := behind
        rw [Memory.frontier_write] at behind
        omega
      · intro b same
        cases same
        exact Nat.le_of_eq base.symm

theorem decodeItems_leaves {decodeItem : Slot → MarshalM Value} (each : ∀ slot, Copies (decodeItem slot))
    (t : NativeType) (base : UInt64) {start : Engine} (index count : Nat) {found : List Value}
    (new : ∀ a ∈ Value.ownedAll found, start.memory.frontier ≤ a.toNat) (h : start.Leaves [] [] [] s) :
    start.Leaves [] [] [] (decodeItems decodeItem t base index count found s).2 ∧
      ∀ items, (decodeItems decodeItem t base index count found s).1 = .ok items →
        ∀ a ∈ Value.ownedAll items, start.memory.frontier ≤ a.toNat := by
  induction count generalizing index found s with
  | zero =>
      refine ⟨h, fun items same a ha => ?_⟩
      cases same
      exact new a (mem_ownedAll_reverse.mp ha)
  | succ count ih =>
      rcases result : decodeItems decodeItem t base index (count + 1) found s with ⟨r, s'⟩
      obtain ⟨left, owns⟩ := each (s.memory.load t (elementAddress base t index)) s
      rcases decodeItems_succ_cases result with ⟨item, s₁, converted, later⟩ | ⟨e, s₁, refused, rfl, rfl⟩
      · rw [converted] at left owns
        have new' : ∀ a ∈ Value.ownedAll (item :: found), start.memory.frontier ≤ a.toNat := by
          intro a ha
          rw [Value.ownedAll] at ha
          rcases List.mem_append.mp ha with own | earlier
          · exact Nat.le_trans h.frontier_le (owns item rfl a own)
          · exact new a earlier
        have rest := ih (index + 1) new' (h.trans left)
        rw [later] at rest
        exact rest
      · rw [refused] at left
        obtain ⟨lost, only, drops⟩ := releaseAll_drops found.reverse s₁
        refine ⟨(h.trans left).givesUp drops (fun a ha => Or.inl (new a ?_)) fun a old _ _ => ?_, by simp⟩
        · exact mem_ownedAll_reverse.mp (only a ha)
        · refine releaseAll_spares found.reverse (fun owned => ?_) s₁
          have := new a (mem_ownedAll_reverse.mp owned)
          omega

theorem decodeArrayWith_copies {decodeItem : Slot → MarshalM Value} (each : ∀ slot, Copies (decodeItem slot))
    (element : Ty) (length : ArrayLength) (slot : Slot) (known : Option Nat) :
    Copies (decodeArrayWith decodeItem element length slot known) := by
  intro s
  rcases result : decodeArrayWith decodeItem element length slot known s with ⟨r, s'⟩
  rcases decodeArrayWith_cases result with ⟨count, decoded, -, -, items_run, rfl⟩ | ⟨rfl, rfl | ⟨e, rfl⟩⟩
  · have none_owned : ∀ a ∈ Value.ownedAll [], s.memory.frontier ≤ a.toNat := by simp [Value.ownedAll]
    have leaves := decodeItems_leaves each element.native slot.address 0 count none_owned (.refl s [] [] [])
    rw [items_run] at leaves
    refine ⟨leaves.1, fun v same a ha => ?_⟩
    cases decoded with
    | error e => cases same
    | ok items =>
        cases same
        rw [Value.owned] at ha
        exact leaves.2 items rfl a ha
  · refine ⟨.refl _ [] [] [], fun v same a ha => ?_⟩
    cases same
    split at ha <;> simp [Value.owned, Value.ownedAll] at ha
  · exact ⟨.refl _ [] [] [], by simp⟩

/-- A conversion from a native value leaves what was there, whichever way it ends. -/
theorem fromNative_copies (type : Ty) (slot : Slot) (transfer : Transfer) :
    Copies (fromNative type slot transfer) := by
  -- by recursion on the element type of an array; only a structure that is handed over is copied
  cases shape : type with
  | array element length =>
      rw [fromNative]
      exact decodeArrayWith_copies (fun x => fromNative_copies element x transfer.ofElement) element length slot none
  | struct layout =>
      intro s
      rcases result : fromNative (.struct layout) slot transfer s with ⟨r, s'⟩
      simp only [fromNative] at result
      cases found : decodeScalar? (.struct layout) slot with
      | some w =>
          rw [found] at result
          cases result
          refine ⟨.refl s [] [] [], fun v same a ha => ?_⟩
          cases same
          rw [(decodeScalar?_idle found).owned] at ha
          cases ha
      | none =>
          rw [found] at result
          simp only at result
          split at result
          · rcases EngineM.failing_bind_cases result with ⟨boxed, s₁, copied, last⟩ | ⟨e, failed, rfl⟩
            · obtain ⟨left, new⟩ := copyStructure_leaves copied
              cases last
              refine ⟨left, fun v same a ha => ?_⟩
              cases same
              simp only [Value.owned] at ha
              split at ha
              · rw [List.mem_singleton.mp ha]
                exact new boxed rfl
              · cases ha
            · exact ⟨(copyStructure_leaves failed).1, by simp⟩
          · cases result
            refine ⟨.refl s [] [] [], fun v same a ha => ?_⟩
            cases same
            simp [Value.owned] at ha
  | _ =>
      intro s
      simp only [fromNative]
      cases found : decodeScalar? _ slot with
      | some w =>
          refine ⟨.refl s [] [] [], fun v same a ha => ?_⟩
          cases same
          rw [(decodeScalar?_idle found).owned] at ha
          cases ha
      | none =>
          refine ⟨.refl s [] [] [], fun v same a ha => ?_⟩
          cases same
          simp [Value.owned] at ha
termination_by type
decreasing_by simp; omega

theorem arrayFromNative_copies (element : Ty) (length : ArrayLength) (slot : Slot) (known : Option Nat)
    (transfer : Transfer) : Copies (arrayFromNative element length slot known transfer) :=
  decodeArrayWith_copies (fun x => fromNative_copies element x transfer.ofElement) element length slot known

end Ferry
