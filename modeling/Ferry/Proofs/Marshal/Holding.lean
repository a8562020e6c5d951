import Mathlib.Data.List.Nodup
import Ferry.Proofs.Marshal.Leading

/-!
# What a decoded value holds

A structure that is handed over is copied, and the value owns the copy by itself. Any other structure is borrowed, and lies
where the native value leads. `Grounded` says so of values that are found one after the other; a conversion that succeeds
yields such a value and gives nothing up: `fromNative_grounded`.
-/

set_option autoImplicit false

namespace Ferry

/-- Nothing is given up between the two states, and memory moves forward. -/
structure Engine.Grows (s s' : Engine) : Prop where
  evolves : s.memory.Evolves [] s'.memory
  events : ∃ t, s'.events = t ++ s.events ∧ losses t = []

namespace Engine.Grows

variable {s s' s'' : Engine} {a : UInt64}

theorem refl (s : Engine) : s.Grows s :=
  ⟨.refl [] s.memory, [], rfl, rfl⟩

theorem trans (first : s.Grows s') (second : s'.Grows s'') : s.Grows s'' := by
  obtain ⟨t, events, quiet⟩ := first.events
  obtain ⟨t', events', quiet'⟩ := second.events
  exact ⟨first.evolves.trans second.evolves, t' ++ t, by rw [events', events, List.append_assoc],
    by rw [losses_append, quiet, quiet', List.append_nil]⟩

theorem chunks (h : s.Grows s') : ∀ b ∈ s.memory.chunks, b ∈ s'.memory.chunks :=
  fun _ hb => h.evolves.mem_chunks hb (by simp)

theorem live (h : s.Grows s') (alive : s.memory.Live a) : s'.memory.Live a :=
  h.evolves.live alive

end Engine.Grows

variable {s s' : Engine} {own own' lent lent' : UInt64 → Prop} {m m' : Memory} {values others : List Value} {v : Value}
  {type element : Ty} {length : ArrayLength} {slot : Slot} {known : Option Nat} {transfer : Transfer}

/-- None of the structures in the values dangles: the values own it alone, and it is alive, or it is lent to them. -/
structure Grounded (own lent : UInt64 → Prop) (m : Memory) (values : List Value) : Prop where
  structures : ∀ a ∈ Value.structuresAll values, a ∈ Value.ownedAll values ∨ lent a
  owned : ∀ a ∈ Value.ownedAll values, own a ∧ m.Live a
  distinct : (Value.ownedAll values).Nodup

namespace Grounded

theorem nil : Grounded own lent m [] :=
  ⟨fun _ ha => (nomatch ha), fun _ ha => (nomatch ha), List.nodup_nil⟩

theorem plain (structures : v.structures = []) (owned : v.owned = []) : Grounded own lent m [v] := by
  refine ⟨fun a ha => ?_, fun a ha => ?_, ?_⟩
  · simp [Value.structuresAll, structures] at ha
  · simp [Value.ownedAll, owned] at ha
  · simp [Value.ownedAll, owned]

theorem borrowed (layout : Layout) {a : UInt64} (here : lent a) : Grounded own lent m [.boxed ⟨layout, a, false⟩] := by
  refine ⟨fun x hx => ?_, fun x hx => ?_, ?_⟩
  · simp only [Value.structuresAll, Value.structures, List.append_nil, List.mem_singleton] at hx
    exact Or.inr (by rwa [hx])
  · simp [Value.ownedAll, Value.owned] at hx
  · simp [Value.ownedAll, Value.owned]

theorem owner (layout : Layout) {a : UInt64} (here : own a) (alive : m.Live a) :
    Grounded own lent m [.boxed ⟨layout, a, true⟩] := by
  have alone : Value.ownedAll [.boxed ⟨layout, a, true⟩] = [a] := rfl
  refine ⟨fun x hx => Or.inl hx, fun x hx => ?_, ?_⟩
  · rw [alone, List.mem_singleton] at hx
    exact hx ▸ ⟨here, alive⟩
  · rw [alone]
    exact List.nodup_singleton a

theorem array (h : Grounded own lent m values) : Grounded own lent m [.array values] := by
  refine ⟨fun a ha => ?_, fun a ha => ?_, ?_⟩ <;>
    simp only [Value.structuresAll, Value.structures, Value.ownedAll, Value.owned, List.append_nil] at *
  · exact h.structures a ha
  · exact h.owned a ha
  · exact h.distinct

theorem reverse (h : Grounded own lent m values) : Grounded own lent m values.reverse where
  structures a ha := by
    rw [mem_ownedAll_reverse]
    refine h.structures a ?_
    rw [mem_structuresAll] at ha ⊢
    simpa using ha
  owned a ha := h.owned a (mem_ownedAll_reverse.mp ha)
  distinct := (ownedAll_reverse_perm values).nodup_iff.mpr h.distinct

theorem mono (h : Grounded own lent m values) (owns : ∀ a, own a → own' a) (lends : ∀ a, lent a → lent' a) :
    Grounded own' lent' m values where
  structures a ha := (h.structures a ha).imp_right (lends a)
  owned a ha := ⟨owns a (h.owned a ha).1, (h.owned a ha).2⟩
  distinct := h.distinct

/-- A value is found behind others. It owns nothing that they own. -/
theorem cons (h : Grounded own lent m values) (item : Grounded own' lent m' [v]) (stays : ∀ a, m.Live a → m'.Live a)
    (owns : ∀ a, own' a → own a) (apart : ∀ a ∈ Value.ownedAll values, ¬own' a) : Grounded own lent m' (v :: values) := by
  have first : ∀ a, a ∈ v.owned ↔ a ∈ Value.ownedAll [v] := by simp [Value.ownedAll]
  refine ⟨fun a ha => ?_, fun a ha => ?_, ?_⟩
  · rw [Value.structuresAll] at ha
    rw [Value.ownedAll, List.mem_append]
    rcases List.mem_append.mp ha with here | earlier
    · have found := item.structures a (by simpa [Value.structuresAll] using here)
      rw [← first] at found
      exact found.imp_left Or.inl
    · exact (h.structures a earlier).imp_left Or.inr
  · rw [Value.ownedAll] at ha
    rcases List.mem_append.mp ha with here | earlier
    · obtain ⟨mine, alive⟩ := item.owned a ((first a).mp here)
      exact ⟨owns a mine, alive⟩
    · obtain ⟨mine, alive⟩ := h.owned a earlier
      exact ⟨mine, stays a alive⟩
  · rw [Value.ownedAll]
    refine List.nodup_append.mpr ⟨by simpa [Value.ownedAll] using item.distinct, h.distinct, fun a here x earlier => ?_⟩
    rintro rfl
    exact apart a earlier (item.owned a ((first a).mp here)).1

theorem old (h : Grounded own lent m values) : ∀ a ∈ Value.ownedAll values, ¬m.frontier ≤ a.toNat :=
  fun a ha => Nat.not_le.mpr (h.owned a ha).2.toNat_lt

end Grounded

/-! ## Scalars and structures -/

theorem decodeScalar?_structures (found : decodeScalar? type slot = some v) : v.structures = [] := by
  have integer : ∀ u, (Value.ofUInt64 u).structures = [] := fun u => by
    unfold Value.ofUInt64
    split <;> rfl
  unfold decodeScalar? at found
  split at found
  case h_3 =>
    cases found
    exact integer _
  case h_6 =>
    split at found
    · cases found
      rfl
    · split at found <;> cases found
      rfl
  all_goals
    cases found
    rfl

theorem copyStructure_grounded {layout : Layout} {a : UInt64} {boxed : Boxed}
    (run : copyStructure layout a s = (.ok boxed, s')) :
    s.Grows s' ∧ Grounded (s.memory.frontier ≤ ·.toNat) lent s'.memory [.boxed boxed] := by
  have forward := copyStructure_evolves run
  unfold copyStructure at run
  rw [EngineM.failing_lift] at run
  rcases made : EngineM.allocate layout.size s with ⟨result, s₁⟩
  rw [made] at run
  cases result with
  | none => cases run
  | some block =>
      obtain ⟨t, events, -, none⟩ := (EngineM.allocate_moves made).events
      obtain ⟨b, hb, address, -⟩ := allocate_block made
      obtain ⟨-, base⟩ := allocate_evolves made
      cases run
      exact ⟨⟨forward, t, events, none.eq_nil⟩, .owner layout (Nat.le_of_eq base.symm)
        (Memory.live_write ⟨b, hb, address⟩ _ _)⟩

/-! ## Arrays -/

theorem decodeItems_grounded {decodeItem : Slot → MarshalM Value} {t : NativeType} {base : UInt64} {start : Engine}
    (index count : Nat)
    (each : ∀ i < index + count, ∀ s v s', start.Grows s →
      decodeItem (s.memory.load t (elementAddress base t i)) s = (.ok v, s') →
        s.Grows s' ∧ Grounded (s.memory.frontier ≤ ·.toNat) lent s'.memory [v])
    {found items : List Value} (grows : start.Grows s)
    (grounded : Grounded (start.memory.frontier ≤ ·.toNat) lent s.memory found)
    (run : decodeItems decodeItem t base index count found s = (.ok items, s')) :
    start.Grows s' ∧ Grounded (start.memory.frontier ≤ ·.toNat) lent s'.memory items := by
  induction count generalizing index found s with
  | zero =>
      cases run
      exact ⟨grows, grounded.reverse⟩
  | succ count ih =>
      rcases decodeItems_succ_cases run with ⟨item, s₁, converted, later⟩ | ⟨e, s₁, -, -, impossible⟩
      · obtain ⟨grows₁, new⟩ := each index (by omega) s item s₁ grows converted
        refine ih (index + 1) (fun i hi => each i (by omega)) (grows.trans grows₁)
          (grounded.cons new (fun a => grows₁.live) (fun a => Nat.le_trans grows.evolves.frontier_le) grounded.old) later
      · cases impossible

/-- An array whose elements are grounded wherever they lead to what is lent. Its block has room for them. -/
theorem decodeArrayWith_grounded {decodeItem : Slot → MarshalM Value}
    (leads : (Ty.array element length).Leads s.memory own lent' slot)
    (room : (Ty.array element length).Roomy s.memory slot known)
    (each : ∀ x t v t', s.Grows t → (element.isPointerLike = true → element.Leads s.memory own lent' x) →
      decodeItem x t = (.ok v, t') → t.Grows t' ∧ Grounded (t.memory.frontier ≤ ·.toNat) lent t'.memory [v])
    (run : decodeArrayWith decodeItem element length slot known s = (.ok v, s')) :
    s.Grows s' ∧ Grounded (s.memory.frontier ≤ ·.toNat) lent s'.memory [v] := by
  rcases decodeArrayWith_cases run with ⟨count, decoded, present, counted, items, result⟩ | ⟨rfl, result⟩
  · obtain ⟨-, b, hb, at_slot, fixed, elements⟩ := leads present
    rw [← at_slot] at counted items
    have bound := fun address => Ty.Leads.counted hb address fixed (fun n shown => by
      obtain ⟨c, hc, same, bound⟩ := room present address n shown
      rwa [Memory.eq_of_address hb hc (at_slot.trans same.symm)]) counted
    cases decoded with
    | error e => cases result
    | ok found =>
        cases result
        obtain ⟨grows, grounded⟩ := decodeItems_grounded 0 count (fun i hi t v t' grows converted => by
          refine each _ t v t' grows (fun address => ?_) converted
          have fits : (i + 1) * element.native.size ≤ b.capacity :=
            Nat.le_trans (Nat.mul_le_mul_right _ (by omega)) (bound address)
          rw [Memory.load_element (grows.chunks b hb) element.native (Block.element_inside fits)]
          exact elements i fits) (.refl s) .nil items
        exact ⟨grows, grounded.array⟩
  · rcases result with result | ⟨e, result⟩
    · cases result
      refine ⟨.refl _, ?_⟩
      split
      · exact .array .nil
      · exact .plain rfl rfl
    · cases result

/-- A conversion from a native value that succeeds gives nothing up. Copies that it makes belong to the value, and what the
value borrows is where the native value leads, if it is not handed over. -/
theorem fromNative_grounded (type : Ty) {slot : Slot} {transfer : Transfer} {v : Value} {s s' : Engine}
    (leads : type.isPointerLike = true → type.Leads s.memory own lent' slot)
    (lends : transfer ≠ .everything → ∀ a, lent' a → lent a) (run : fromNative type slot transfer s = (.ok v, s')) :
    s.Grows s' ∧ Grounded (s.memory.frontier ≤ ·.toNat) lent s'.memory [v] := by
  -- by recursion on the element type of an array
  cases shape : type with
  | array element length =>
      rw [shape] at leads
      rw [shape, fromNative] at run
      refine decodeArrayWith_grounded (leads rfl) .unknown (fun x t v t' grows leads each => ?_) run
      refine fromNative_grounded element (fun address => (leads address).later element (fun b hb _ => grows.chunks b hb)
        (fun _ own => own) fun _ lent => lent) (fun other => lends fun handed => other ?_) each
      rw [handed]
      rfl
  | struct layout =>
      rw [shape] at leads
      simp only [shape, fromNative] at run
      cases found : decodeScalar? (.struct layout) slot with
      | some w =>
          rw [found] at run
          cases run
          exact ⟨.refl s, .plain (decodeScalar?_structures found) (decodeScalar?_idle found).owned⟩
      | none =>
          rw [found] at run
          simp only at run
          split at run
          · obtain ⟨boxed, s₁, copied, last⟩ := EngineM.failing_bind_ok run
            cases last
            exact copyStructure_grounded copied
          · rename_i other
            cases run
            refine ⟨.refl s, .borrowed layout (lends other _ (leads rfl ?_))⟩
            simp only [decodeScalar?] at found
            split at found
            · cases found
            · simpa using found
  | _ =>
      simp only [shape, fromNative] at run
      cases found : decodeScalar? _ slot with
      | some w =>
          rw [found] at run
          cases run
          exact ⟨.refl s, .plain (decodeScalar?_structures found) (decodeScalar?_idle found).owned⟩
      | none =>
          rw [found] at run
          cases run
          exact ⟨.refl s, .plain rfl rfl⟩
termination_by type
decreasing_by simp [shape]; omega

theorem arrayFromNative_grounded (leads : (Ty.array element length).Leads s.memory own lent' slot)
    (room : (Ty.array element length).Roomy s.memory slot known) (lends : transfer ≠ .everything → ∀ a, lent' a → lent a)
    (run : arrayFromNative element length slot known transfer s = (.ok v, s')) :
    s.Grows s' ∧ Grounded (s.memory.frontier ≤ ·.toNat) lent s'.memory [v] := by
  refine decodeArrayWith_grounded leads room (fun x t v t' grows leads each => ?_) run
  refine fromNative_grounded element (fun address => (leads address).later element (fun b hb _ => grows.chunks b hb)
    (fun _ own => own) fun _ lent => lent) (fun other => lends fun handed => other ?_) each
  rw [handed]
  rfl

end Ferry
