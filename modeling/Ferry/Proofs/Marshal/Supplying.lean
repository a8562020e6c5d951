import Ferry.Proofs.Marshal.Leading

/-!
# What the engine makes of a value

The engine copies texts and arrays of the caller into new blocks and passes the structures on as they are. So what it makes
leads to new blocks and to the structures that the value holds; and a conversion that fails gives up new blocks only. For
arrays inside of arrays this is one induction over the type, and within it one over the items (`Filling`).
-/

set_option autoImplicit false

namespace Ferry

variable {s s' : Engine} {type element : Ty} {length : ArrayLength} {value : Value} {slot : Slot} {nullable : Bool}

/-- The block lies in what was made between the two frontiers. -/
def Between (first last : Nat) (x : UInt64) : Prop :=
  first ≤ x.toNat ∧ x.toNat < last

theorem Between.mono {first first' last last' : Nat} {x : UInt64} (h : Between first last x) (lower : first' ≤ first)
    (upper : last ≤ last') : Between first' last' x :=
  ⟨Nat.le_trans lower h.1, Nat.lt_of_lt_of_le h.2 upper⟩

/-- A conversion leaves what was there as it is, whichever way it ends, and what it makes leads to new blocks and to the
structures of the value. -/
structure Supplied (type : Ty) (value : Value) (s : Engine) (r : Except (Failure MarshalError) Slot) (s' : Engine) : Prop where
  leaves : s.Leaves [] [] [] s'
  leads : ∀ slot, r = .ok slot →
    type.Leads s'.memory (Between s.memory.frontier s'.memory.frontier) (· ∈ value.structures) slot

/-! ## Writing behind everything -/

theorem Engine.Leaves.write_behind {t : Engine} (h : s.Leaves [] [] [] t) {x : UInt64} (behind : s.memory.frontier ≤ x.toNat)
    (bytes : List UInt8) : s.Leaves [] [] [] (EngineM.writeBytes x bytes t).2 := by
  refine ⟨h.events, Nat.le_trans h.frontier_le (Nat.le_of_eq (Memory.frontier_write _ _ _).symm), fun b hb _ => ?_,
    fun a old kept loud => (h.spares a old kept loud).trans (EngineM.writeBytes_spares a x bytes t), fun a behind kept free => ?_⟩
  swap
  · exact h.unowned a (Nat.le_trans (Nat.le_of_eq (Memory.frontier_write _ _ _).symm) behind) kept free
  have still := h.remains b hb (by simp)
  show b ∈ (t.memory.write x bytes).chunks
  cases found : t.memory.reach? x with
  | none =>
      have same : t.memory.write x bytes = t.memory := by simp only [Memory.write, found]
      rwa [same]
  | some p =>
      obtain ⟨c, o⟩ := p
      obtain ⟨hc, reached, -⟩ := Memory.reach?_some_iff.mp found
      refine (Memory.write_evolves hc reached bytes).mem_chunks still fun same => ?_
      have same : b = c := Memory.eq_of_address still hc (List.mem_singleton.mp same)
      have := Memory.chunk_end_le hb
      rw [← same, Block.reaches_iff] at reached
      omega

theorem Engine.Leaves.of_moves {gained : List Resource} (moves : s.Moves gained [] s')
    (forward : s.memory.Evolves [] s'.memory) (spares : ∀ a, s.Spares a s') : s.Leaves [] [] [] s' := by
  obtain ⟨t, events, -, none⟩ := moves.events
  refine ⟨⟨t, events, fun r hr => ?_⟩, forward.frontier_le, fun b hb _ => forward.mem_chunks hb (by simp),
    fun a _ _ _ => spares a, fun a _ _ free => moves.unowned a free⟩
  cases none.mem_iff.mp hr

theorem allocate_leaves {size : Nat} {made : Option UInt64} (run : EngineM.allocate size s = (made, s')) :
    s.Leaves [] [] [] s' := by
  cases made with
  | none =>
      rw [EngineM.allocate_none run]
      exact .refl s [] [] []
  | some block =>
      have spares := fun a => EngineM.allocate_spares a size s
      rw [run] at spares
      exact .of_moves (EngineM.allocate_moves run) (allocate_evolves run).1 spares

/-! ## Filling an array -/

/-- The array in a new block while it is filled: the first items are stored, and the elements behind them are zero. -/
structure Filling (element : Ty) (lent : UInt64 → Prop) (start : Engine) (block : UInt64) (capacity index : Nat)
    (t : Engine) : Prop where
  leaves : start.Leaves [] [] [] t
  stored : ∃ b ∈ t.memory.chunks, b.address = block ∧ b.base = start.memory.frontier ∧ b.capacity = capacity ∧
    (element.isPointerLike = true →
      (∀ i < index, element.Leads t.memory (Between (start.memory.frontier + 1) t.memory.frontier) lent
        (b.element element.native i)) ∧
      ∀ i, index ≤ i → b.element element.native i = .zero)

namespace Filling

variable {lent : UInt64 → Prop} {start t t' : Engine} {block : UInt64} {capacity index : Nat}

theorem of_allocate (element : Ty) (lent : UInt64 → Prop) {size : Nat} (made : EngineM.allocate size s = (some block, s')) :
    ∃ capacity, max size 1 ≤ capacity ∧ Filling element lent s block capacity 0 s' := by
  obtain ⟨b, hb, address, base, large, fresh⟩ := allocate_block made
  refine ⟨b.capacity, by rw [← large]; exact b.size_le_capacity, allocate_leaves made, b, Memory.mem_chunks_of_live hb,
    address, base, rfl, fun _ => ⟨fun i before => absurd before (Nat.not_lt_zero i), fun i _ => ?_⟩⟩
  exact Block.element_of_fresh fresh element.native i

theorem move (h : Filling element lent start block capacity index t) (later : t.Leaves [] [] [] t') :
    Filling element lent start block capacity index t' := by
  obtain ⟨b, hb, address, base, room, filled⟩ := h.stored
  refine ⟨h.leaves.trans later, b, later.remains b hb (by simp), address, base, room, fun pointers => ?_⟩
  obtain ⟨before, behind⟩ := filled pointers
  refine ⟨fun i hi => (before i hi).later element (fun c hc _ => later.remains c hc (by simp)) (fun x hx => ?_)
    fun _ hx => hx, behind⟩
  exact ⟨hx.1, Nat.lt_of_lt_of_le hx.2 later.frontier_le⟩

theorem step (h : Filling element lent start block capacity index t) {item : Value}
    (supplied : Supplied element item t (.ok slot) t') (lends : ∀ x ∈ item.structures, lent x)
    (room : element.isPointerLike = true → (index + 1) * element.native.size ≤ capacity)
    (small : index * element.native.size ≤ Memory.limit) :
    Filling element lent start block capacity (index + 1)
      { t' with memory := t'.memory.store element.native (elementAddress block element.native index) slot } := by
  have above : start.memory.frontier + 1 ≤ t.memory.frontier := by
    obtain ⟨b, hb, -, base, -⟩ := h.stored
    have := Memory.base_lt_frontier hb
    omega
  obtain ⟨b, hb, address, base, fits, filled⟩ := (h.move supplied.leaves).stored
  have place : block.toNat = start.memory.frontier := by rw [← address, Memory.toNat_address hb, base]
  have low := start.memory.frontier_lt
  have behind : start.memory.frontier ≤ (elementAddress block element.native index).toNat := by
    rw [toNat_elementAddress (by omega) small]
    omega
  refine ⟨(h.leaves.trans supplied.leaves).write_behind behind (slot.toBytes element.native), ?_⟩
  cases pointers : element.isPointerLike with
  | false =>
      obtain ⟨b', hb', base', size'⟩ := t'.memory.samePlaces_write (elementAddress block element.native index)
        (slot.toBytes element.native) b hb
      exact ⟨b', hb', by rw [← address]; simp [Block.address, base'], base'.trans base,
        (Block.capacity_congr size').trans fits, nofun⟩
  | true =>
      have room := room pointers
      rw [← fits] at room
      obtain ⟨b', hb', base', size', -, here, others⟩ := Memory.exists_element_store hb room slot
      rw [address] at hb'
      have whole : b'.element element.native index = slot := by
        rw [here]
        exact Slot.ofNat_payload_word (Ty.size_of_pointerLike pointers) slot
      obtain ⟨before, rest⟩ := filled pointers
      have reached : b.reaches (elementAddress block element.native index).toNat = true := by
        rw [← address]
        exact Memory.reaches_address_add hb (Block.element_inside room)
      -- what the stored items lead to lies behind the block of the array, which is all that the store changes
      have kept : ∀ c ∈ t'.memory.chunks, Between (start.memory.frontier + 1) t'.memory.frontier c.address →
          c ∈ (t'.memory.store element.native (elementAddress block element.native index) slot).chunks := by
        intro c hc own
        refine (Memory.write_evolves hb reached (slot.toBytes element.native)).mem_chunks hc fun same => ?_
        have same : c = b := Memory.eq_of_address hc hb (List.mem_singleton.mp same)
        have higher := own.1
        rw [Memory.toNat_address hc, same, base] at higher
        omega
      have wider : ∀ x, Between (start.memory.frontier + 1) t'.memory.frontier x → Between (start.memory.frontier + 1)
          (t'.memory.store element.native (elementAddress block element.native index) slot).frontier x := fun x own =>
        ⟨own.1, by rw [Memory.frontier_store]; exact own.2⟩
      refine ⟨b', hb', by rw [← address]; simp [Block.address, base'], base'.trans base,
        (Block.capacity_congr size').trans fits, fun _ => ⟨fun i hi => ?_, fun i hi => ?_⟩⟩
      · by_cases last : i = index
        · rw [last, whole]
          have led : element.Leads t'.memory (Between (start.memory.frontier + 1) t'.memory.frontier) lent slot :=
            (supplied.leads slot rfl).later element (fun _ hc _ => hc) (fun x own => ⟨Nat.le_trans above own.1, own.2⟩) lends
          exact led.later element kept wider fun _ hx => hx
        · rw [others i last]
          exact (before i (by omega)).later element kept wider fun _ hx => hx
      · rw [others i (by omega)]
        exact rest i (by omega)

theorem leads (h : Filling element lent start block capacity index t)
    (fixed : element.isPointerLike = true → ∀ n, length = .fixed n → n * element.native.size ≤ capacity) :
    (Ty.array element length).Leads t.memory (Between start.memory.frontier t.memory.frontier) lent (.ofAddress block) := by
  intro _
  obtain ⟨b, hb, address, base, fits, filled⟩ := h.stored
  refine ⟨?_, b, hb, address, by rwa [fits], fun i _ => ?_⟩
  · show Between _ _ block
    rw [← address, Between, Memory.toNat_address hb]
    exact ⟨Nat.le_of_eq base.symm, Memory.base_lt_frontier hb⟩
  · cases pointers : element.isPointerLike with
    | false => exact .scalar pointers _
    | true =>
        obtain ⟨before, rest⟩ := filled pointers
        by_cases inside : i < index
        · exact (before i inside).later element (fun _ hc _ => hc)
            (fun x own => ⟨Nat.le_trans (Nat.le_succ _) own.1, own.2⟩) fun _ hx => hx
        · rw [rest i (by omega)]
          exact .null rfl

theorem roomy (h : Filling element lent start block capacity index t)
    (room : element.isPointerLike = true → index * element.native.size ≤ capacity) :
    (Ty.array element length).Roomy t.memory (.ofAddress block) (some index) := by
  intro _ pointers n same
  cases same
  obtain ⟨b, hb, address, -, fits, -⟩ := h.stored
  exact ⟨b, hb, address, by rw [fits]; exact room pointers⟩

theorem undone (h : Filling element lent start block capacity index t)
    (fixed : element.isPointerLike = true → ∀ n, length = .fixed n → n * element.native.size ≤ capacity)
    (room : element.isPointerLike = true → index * element.native.size ≤ capacity) :
    start.Leaves [] [] [] (freeArray element length (.ofAddress block) (some index) .full .engine t).2 := by
  have new : ∀ x ∈ (Ty.array element length).released t.memory .engine .full (.ofAddress block) (some index),
      start.memory.frontier ≤ x.toNat := by
    intro x hx
    rcases (h.leads fixed).mem_released (h.roomy room) hx with own | ⟨impossible, -⟩
    · exact own.1
    · cases impossible
  refine h.leaves.givesUp (freeArray_releases element length _ (some index) .full .engine t) (fun x hx => Or.inl (new x hx))
    fun a old _ _ => freeArray_spares fun hit => ?_
  have := new a hit
  omega

end Filling

theorem encodeItems_supplies {lent : UInt64 → Prop} {start : Engine} {block : UInt64} {capacity index : Nat}
    {undo : Nat → EngineM Unit} {items : List Value} {r : Except (Failure MarshalError) Unit}
    (each : ∀ item ∈ items, ∀ s r s', encode item element false s = (r, s') → Supplied element item s r s')
    (lends : ∀ item ∈ items, ∀ x ∈ item.structures, lent x)
    (room : element.isPointerLike = true → (index + items.length) * element.native.size ≤ capacity)
    (small : (index + items.length) * element.native.size ≤ Memory.limit)
    (filling : Filling element lent start block capacity index s)
    (run : encodeItems (fun item => encode item element false) undo element.native block index items s = (r, s')) :
    (r = .ok () ∧ Filling element lent start block capacity (index + items.length) s') ∨
      ∃ e k t, r = .error e ∧ k ≤ index + items.length ∧ Filling element lent start block capacity k t ∧
        (s' = (undo k t).2 ∨ s' = t) := by
  induction items generalizing s index with
  | nil =>
      cases run
      exact Or.inl ⟨rfl, filling⟩
  | cons item rest ih =>
      obtain ⟨first, later_each⟩ := List.forall_mem_cons.mp each
      obtain ⟨lends_first, lends_rest⟩ := List.forall_mem_cons.mp lends
      have length : index + (item :: rest).length = index + 1 + rest.length := by
        simp only [List.length_cons]
        omega
      rw [length] at room small ⊢
      have within : ∀ k ≤ index + 1 + rest.length, k * element.native.size ≤
          (index + 1 + rest.length) * element.native.size := fun k le => Nat.mul_le_mul_right _ le
      rcases encodeItems_cons_cases run with ⟨slot, s₁, converted, later⟩ | ⟨e, s₁, refused, after, rfl⟩
      · refine ih later_each lends_rest room small (filling.step (first s _ s₁ converted) lends_first ?_ ?_) later
        · exact fun pointers => Nat.le_trans (within (index + 1) (by omega)) (room pointers)
        · exact Nat.le_trans (within index (by omega)) small
      · exact Or.inr ⟨e, index, s₁, rfl, by omega, filling.move (first s _ s₁ refused).leaves, after.imp (·.2) (·.2)⟩

/-! ## Conversions -/

/-- What an array is made of, and how many elements it is known to have. -/
structure SuppliedArray (element : Ty) (length : ArrayLength) (value : Value) (s : Engine)
    (r : Except (Failure MarshalError) (Slot × Nat)) (s' : Engine) : Prop where
  supplied : Supplied (.array element length) value s (r.map (·.1)) s'
  roomy : ∀ slot count, r = .ok (slot, count) → (Ty.array element length).Roomy s'.memory slot (some count)

theorem encodeArrayWith_supplies {r : Except (Failure MarshalError) (Slot × Nat)}
    (each : ∀ item s r s', encode item element false s = (r, s') → Supplied element item s r s')
    (run : encodeArrayWith (fun item => encode item element false) value element length nullable s = (r, s')) :
    SuppliedArray element length value s r s' := by
  rcases encodeArrayWith_cases run with ⟨items, block, s₁, filled, rfl, small, made, items_run, rfl⟩ | ⟨rfl, others⟩
  · obtain ⟨capacity, large, filling⟩ := Filling.of_allocate element (· ∈ Value.structuresAll items) made
    have whole : length.capacity items.length * element.native.size ≤ capacity := Nat.le_trans (Nat.le_max_left _ _) large
    have fixed : element.isPointerLike = true → ∀ n, length = .fixed n → n * element.native.size ≤ capacity := by
      rintro - n rfl
      exact Nat.le_trans (Nat.mul_le_mul_right _ (Nat.le_max_left n items.length)) whole
    have room : element.isPointerLike = true → items.length * element.native.size ≤ capacity := fun _ =>
      Nat.le_trans (Nat.mul_le_mul_right _ (length.le_capacity items.length)) whole
    have done := encodeItems_supplies (fun item _ => each item) (fun item hi x hx => mem_structuresAll.mpr ⟨item, hi, hx⟩)
      (by rwa [Nat.zero_add]) (by rwa [Nat.zero_add]) filling items_run
    rw [Nat.zero_add] at done
    rcases done with ⟨rfl, full⟩ | ⟨e, k, t, rfl, le, stopped, after⟩
    · refine ⟨⟨full.leaves, fun slot same => ?_⟩, fun slot count same => ?_⟩
      · cases same
        exact full.leads fixed
      · cases same
        exact full.roomy room
    · have left : s.Leaves [] [] [] s' := by
        rcases after with rfl | rfl
        · exact stopped.undone fixed fun pointers => Nat.le_trans (Nat.mul_le_mul_right _ le) (room pointers)
        · exact stopped.leaves
      exact ⟨⟨left, nofun⟩, nofun⟩
  · rcases others with ⟨rfl, -⟩ | ⟨e, rfl⟩
    · refine ⟨⟨.refl _ [] [] [], fun slot same => ?_⟩, fun slot count same => ?_⟩
      · cases same
        exact .null rfl
      · cases same
        intro present
        cases present
    · exact ⟨⟨.refl _ [] [] [], nofun⟩, nofun⟩

theorem encodeText_supplies {text : String} {r : Except (Failure MarshalError) Slot} (run : encodeText text s = (r, s')) :
    Supplied .utf8 value s r s' := by
  rcases encodeText_cases run with ⟨block, s₁, made, rfl, rfl⟩ | ⟨rfl, e, rfl⟩
  · have base := (allocate_evolves made).2
    obtain ⟨b, hb, rfl, -⟩ := allocate_block made
    have inside := Memory.base_lt_frontier (Memory.mem_chunks_of_live hb)
    rw [← Memory.toNat_address (Memory.mem_chunks_of_live hb)] at inside
    refine ⟨(allocate_leaves made).write_behind (Nat.le_of_eq base.symm) (Utf8.write text), fun slot same => ?_⟩
    cases same
    exact fun _ => ⟨Nat.le_of_eq base.symm, by rw [Memory.frontier_write]; exact inside⟩
  · exact ⟨.refl _ [] [] [], nofun⟩

theorem encode_struct {layout : Layout} {r : Except (Failure MarshalError) Slot}
    (run : encode value (.struct layout) nullable s = (r, s')) :
    s' = s ∧ ∀ slot, r = .ok slot → slot.isNull = false → slot.address ∈ value.structures := by
  cases value with
  | boxed b =>
      have converted : (if b.layout = layout then pure (Slot.ofAddress b.address)
          else throw (.error (mismatch (.struct layout) (.boxed b))) : EncodeM Slot) s = (r, s') := run
      split at converted
      · cases converted
        refine ⟨rfl, fun slot same _ => ?_⟩
        cases same
        exact List.mem_singleton.mpr rfl
      · cases converted
        exact ⟨rfl, nofun⟩
  | undefined | null =>
      cases nullable <;> cases run
      · exact ⟨rfl, nofun⟩
      · refine ⟨rfl, fun slot same present => ?_⟩
        cases same
        cases present
  | _ =>
      cases run
      exact ⟨rfl, nofun⟩

/-- What the engine makes of a value of the caller leads to new blocks and to the structures that the value holds, and a
conversion that fails leaves what was there before as it is. -/
theorem encode_supplies (type : Ty) {value : Value} {nullable : Bool} {r : Except (Failure MarshalError) Slot} {s s' : Engine}
    (run : encode value type nullable s = (r, s')) : Supplied type value s r s' := by
  -- by recursion on the element type of an array
  cases shape : type with
  | array element length =>
      rw [shape] at run
      rw [encode] at run
      have whole : ∀ {made s₁}, encodeArrayWith (fun item => encode item element false) value element length nullable s =
          (made, s₁) → SuppliedArray element length value s made s₁ :=
        encodeArrayWith_supplies fun item s r s' run => encode_supplies element run
      rcases EngineM.failing_bind_cases run with ⟨made, s₁, filled, last⟩ | ⟨e, failed, rfl⟩
      · cases last
        exact (whole filled).supplied
      · exact (whole failed).supplied
  | struct layout =>
      rw [shape] at run
      obtain ⟨rfl, passed⟩ := encode_struct run
      exact ⟨.refl _ [] [] [], passed⟩
  | utf8 =>
      rw [shape] at run
      rcases encode_flat_cases (by simp) run with ⟨text, -, made⟩ | ⟨rfl, others⟩
      · exact encodeText_supplies made
      · refine ⟨.refl _ [] [] [], fun slot same => ?_⟩
        rcases others rfl with ⟨rfl, -⟩ | ⟨e, rfl⟩
        · cases same
          exact .null rfl
        · cases same
  | _ =>
      rw [shape] at run
      rcases encode_flat_cases (by simp) run with ⟨text, impossible, -⟩ | ⟨rfl, -⟩
      · cases impossible
      · exact ⟨.refl _ [] [] [], fun _ _ => trivial⟩
termination_by type
decreasing_by simp [shape]; omega

theorem encodeArray_supplies {r : Except (Failure MarshalError) (Slot × Nat)}
    (run : encodeArray value element length nullable s = (r, s')) : SuppliedArray element length value s r s' :=
  encodeArrayWith_supplies (fun _ _ _ _ each => encode_supplies element each) run

theorem toNative_supplies {r : Except (Failure MarshalError) Slot}
    (run : toNative value type nullable s = (r, s')) : Supplied type value s r s' := by
  cases r with
  | ok slot => exact encode_supplies type (toNative_ok run)
  | error e =>
      obtain ⟨s₁, refused, ⟨-, rfl⟩ | ⟨-, rfl⟩⟩ := EncodeM.onError_error run
      · have left := (encode_supplies type refused).leaves
        refine ⟨left.trans ⟨⟨[], rfl, by simp [losses]⟩, Nat.le_refl _, fun _ hb _ => hb, fun a _ _ _ => ?_,
          fun _ _ _ free => free⟩, nofun⟩
        exact .of_memory (t := []) rfl rfl rfl rfl
      · exact ⟨(encode_supplies type refused).leaves, nofun⟩

end Ferry
