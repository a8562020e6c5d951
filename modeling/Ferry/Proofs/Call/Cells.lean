import Ferry.Proofs.Call.Building
import Ferry.Proofs.Memory.Evolution

/-!
# The working storage of a frame

A frame has one cell of a word for each parameter, all in one block, and a block where a failure is reported.
Cells do not overlap, so a word stored in one leaves the others as they are; and as long as memory only moves
forward, what the cells hold changes by such stores alone.
-/

set_option autoImplicit false

namespace Ferry

namespace Frame

variable {f : Frame} {m m' : Memory} {s s' : Engine} {i j : Nat} {touched : List UInt64}

/-- The working storage of the frame is alive. -/
structure Housed (f : Frame) (m : Memory) : Prop where
  cells : ∃ b ∈ m.blocks, b.address = f.cells ∧ b.size = max (8 * f.plan.parameters.length) 1
  failure : ∃ b ∈ m.blocks, b.address = f.failure ∧ b.size = 8
  apart : f.cells ≠ f.failure

theorem Housed.of_evolves (h : f.Housed m) (forward : m.Evolves touched m') : f.Housed m' where
  cells := by
    obtain ⟨b, hb, address, size⟩ := h.cells
    obtain ⟨b', hb', base, size', -, -⟩ := forward.keeps b hb
    exact ⟨b', hb', by rw [← address]; simp [Block.address, base], size'.trans size⟩
  failure := by
    obtain ⟨b, hb, address, size⟩ := h.failure
    obtain ⟨b', hb', base, size', -, -⟩ := forward.keeps b hb
    exact ⟨b', hb', by rw [← address]; simp [Block.address, base], size'.trans size⟩
  apart := h.apart

theorem Housed.congr {g : Frame} (h : f.Housed m) (plan : g.plan = f.plan) (cells : g.cells = f.cells)
    (failure : g.failure = f.failure) : g.Housed m := by
  refine ⟨?_, ?_, ?_⟩
  · rw [plan, cells]
    exact h.cells
  · rw [failure]
    exact h.failure
  · rw [cells, failure]
    exact h.apart

/-- The block of the cells has room for the cell of every parameter. -/
theorem Housed.room (h : f.Housed m) : ∃ b ∈ m.blocks, b.address = f.cells ∧
    ∀ i < f.plan.parameters.length, 8 * i + 8 ≤ b.capacity := by
  obtain ⟨b, hb, address, size⟩ := h.cells
  refine ⟨b, hb, address, fun i hi => ?_⟩
  have := b.size_le_capacity
  omega

theorem Housed.cell_evolves (h : f.Housed m) (inside : i < f.plan.parameters.length) (x : Slot) :
    m.Evolves [f.cells] (m.store .u64 (f.cell i) x) := by
  obtain ⟨b, hb, address, room⟩ := h.room
  have := room i inside
  rw [← address, cell, ← address]
  exact Memory.write_address_evolves hb (by omega) _

theorem Housed.load_failure_evolves (h : f.Housed m) (forward : m.Evolves touched m')
    (untouched : f.failure ∉ touched) : m'.load .pointer f.failure = m.load .pointer f.failure := by
  obtain ⟨b, hb, address, -⟩ := h.failure
  have hb' := forward.mem hb (by rw [address]; exact untouched)
  rw [← address, Memory.load_eq (Memory.mem_chunks_of_live hb) (by
      rw [Memory.toNat_address (Memory.mem_chunks_of_live hb)]; exact b.reaches_base),
    Memory.load_eq (Memory.mem_chunks_of_live hb') (by
      rw [Memory.toNat_address (Memory.mem_chunks_of_live hb')]; exact b.reaches_base)]

/-! ## Where the cells lie -/

/-- The cells lie in a chunk of memory. It may have been released. -/
def Placed (f : Frame) (m : Memory) : Prop :=
  ∃ b ∈ m.chunks, b.address = f.cells ∧ ∀ i < f.plan.parameters.length, 8 * i + 8 ≤ b.capacity

theorem Housed.placed (h : f.Housed m) : f.Placed m := by
  obtain ⟨b, hb, address, room⟩ := h.room
  exact ⟨b, Memory.mem_chunks_of_live hb, address, room⟩

theorem Placed.load_store_self (h : f.Placed m) (inside : i < f.plan.parameters.length) (x : Slot) :
    (m.store .u64 (f.cell i) x).load .u64 (f.cell i) = x := by
  obtain ⟨b, hb, address, room⟩ := h
  have fits := room i inside
  rw [cell, ← address]
  obtain ⟨b', hb', base, size, -, stored, -⟩ :=
    Memory.exists_chunk_store hb .u64 (show 8 * i + NativeType.u64.size ≤ b.capacity from fits) (by omega) x
  have same : b'.address = b.address := by simp [Block.address, base]
  have within : 8 * i < b'.capacity := by
    rw [Block.capacity_congr size]
    omega
  have loaded := Memory.load_address_add hb' within .u64
  rw [same] at loaded
  rw [loaded, stored, ← Slot.ofBytes_toBytes, Slot.ofBytes_toBytes_word rfl]

theorem Placed.load_store_of_ne (h : f.Placed m) (inside : i < f.plan.parameters.length)
    (other : j < f.plan.parameters.length) (differ : j ≠ i) (x : Slot) :
    (m.store .u64 (f.cell i) x).load .u64 (f.cell j) = m.load .u64 (f.cell j) := by
  obtain ⟨b, hb, address, room⟩ := h
  have fits := room i inside
  have fits' := room j other
  rw [cell, cell, ← address]
  obtain ⟨b', hb', base, size, -, -, apart⟩ :=
    Memory.exists_chunk_store hb .u64 (show 8 * i + NativeType.u64.size ≤ b.capacity from fits) (by omega) x
  have same : b'.address = b.address := by simp [Block.address, base]
  have within : 8 * j < b'.capacity := by
    rw [Block.capacity_congr size]
    omega
  have loaded := Memory.load_address_add hb' within .u64
  rw [same] at loaded
  rw [loaded, Memory.load_address_add hb (by omega)]
  congr 1
  refine apart (8 * j) 8 ?_
  simp only [NativeType.size]
  omega

theorem Placed.load_evolves (h : f.Placed m) (forward : m.Evolves touched m') (untouched : f.cells ∉ touched)
    (inside : i < f.plan.parameters.length) : m'.load .u64 (f.cell i) = m.load .u64 (f.cell i) := by
  obtain ⟨b, hb, address, room⟩ := h
  have fits := room i inside
  have hb' := forward.mem_chunks hb (by rw [address]; exact untouched)
  rw [cell, ← address, Memory.load_address_add hb (by omega), Memory.load_address_add hb' (by omega)]

theorem Placed.cell_injective (h : f.Placed m) (inside : i < f.plan.parameters.length)
    (other : j < f.plan.parameters.length) (same : f.cell i = f.cell j) : i = j := by
  obtain ⟨b, hb, address, room⟩ := h
  have first := Memory.toNat_address_add hb (o := 8 * i) (by
    have := room i inside; omega)
  have second := Memory.toNat_address_add hb (o := 8 * j) (by
    have := room j other; omega)
  rw [cell, cell, ← address] at same
  rw [same] at first
  omega

/-! ## A new frame -/

theorem reserve_spec (size : Nat) (s : Engine) :
    s.memory.Evolves [] (EngineM.reserve size s).2.memory ∧
      (EngineM.reserve size s).2 = { s with memory := (EngineM.reserve size s).2.memory } ∧
      ((EngineM.reserve size s).1 = 0 ∨ s.memory.frontier ≤ (EngineM.reserve size s).1.toNat) := by
  rcases EngineM.reserve_cases size s with ⟨a, memory, made, run⟩ | ⟨-, run⟩
  · rw [run]
    refine ⟨Memory.allocate?_evolves made, rfl, Or.inr ?_⟩
    exact Nat.le_of_eq (Memory.allocate?_some made).1.symm
  · rw [run]
    exact ⟨.refl [] _, rfl, Or.inl rfl⟩

theorem reserve_made {size : Nat} (made : (EngineM.reserve size s).1 ≠ 0) :
    ∃ b ∈ (EngineM.reserve size s).2.memory.blocks, b.address = (EngineM.reserve size s).1 ∧
      b.base = s.memory.frontier ∧ b.size = max size 1 ∧ b.stored = #[] := by
  rcases EngineM.reserve_cases size s with ⟨a, memory, found, run⟩ | ⟨-, run⟩
  · rw [run]
    exact Memory.allocate?_block found
  · rw [run] at made
    exact absurd rfl made

theorem load_of_zeros {b : Block} (hb : b ∈ m.blocks) (zeros : b.stored = #[]) (t : NativeType) {o : Nat}
    (inside : o < b.capacity) : m.load t (b.address + UInt64.ofNat o) = .zero := by
  have slice : b.slice o t.size = List.replicate t.size 0 := by
    have same : b = ⟨b.base, b.size, b.label, #[]⟩ := by
      rw [← zeros]
    rw [same, Block.slice_fresh]
  rw [Memory.load_address_add (Memory.mem_chunks_of_live hb) inside, slice, Slot.ofBytes_zeros]

theorem fresh?_eq (plan : Plan) (s : Engine) :
    fresh? plan s =
      (if (EngineM.reserve (8 * plan.parameters.length) s).1 = 0 ||
          (EngineM.reserve 8 (EngineM.reserve (8 * plan.parameters.length) s).2).1 = 0 then do
        EngineM.unreserve (EngineM.reserve (8 * plan.parameters.length) s).1
        EngineM.unreserve (EngineM.reserve 8 (EngineM.reserve (8 * plan.parameters.length) s).2).1
        return none
      else return some (empty plan (EngineM.reserve (8 * plan.parameters.length) s).1
        (EngineM.reserve 8 (EngineM.reserve (8 * plan.parameters.length) s).2).1) : EngineM (Option Frame))
        (EngineM.reserve 8 (EngineM.reserve (8 * plan.parameters.length) s).2).2 := rfl

/-- A new frame has working storage of its own, and every word of it is zero. -/
theorem fresh?_some {plan : Plan} (made : fresh? plan s = (some f, s')) :
    f = empty plan f.cells f.failure ∧ f.Housed s'.memory ∧ s.memory.Evolves [] s'.memory ∧
      s' = { s with memory := s'.memory } ∧
      s.memory.frontier ≤ f.cells.toNat ∧ s.memory.frontier ≤ f.failure.toNat ∧
      (∀ i < plan.parameters.length, s'.memory.load .u64 (f.cell i) = .zero) ∧
      s'.memory.load .pointer f.failure = .zero := by
  rw [fresh?_eq] at made
  obtain ⟨forward, same, place⟩ := reserve_spec (8 * plan.parameters.length) s
  have cellsMade := @reserve_made s (8 * plan.parameters.length)
  generalize EngineM.reserve (8 * plan.parameters.length) s = first at *
  obtain ⟨forward', same', place'⟩ := reserve_spec 8 first.2
  have failureMade := @reserve_made first.2 8
  generalize EngineM.reserve 8 first.2 = second at *
  by_cases full : (decide (first.1 = 0) || decide (second.1 = 0)) = true
  · rw [if_pos full] at made
    cases made
  · rw [if_neg full] at made
    cases made
    simp only [Bool.or_eq_true, decide_eq_true_eq, not_or] at full
    obtain ⟨b, hb, address, base, size, zeros⟩ := cellsMade full.1
    obtain ⟨c, hc, address', base', size', zeros'⟩ := failureMade full.2
    have hb' := forward'.mem hb (by simp)
    refine ⟨rfl, ⟨⟨b, hb', address, size⟩, ⟨c, hc, address', by simpa using size'⟩, ?_⟩, forward.trans forward', ?_,
      place.resolve_left full.1, ?_, ?_, ?_⟩
    · show first.1 ≠ second.1
      rw [← address, ← address']
      intro same
      have := congrArg UInt64.toNat same
      rw [Memory.toNat_address (Memory.mem_chunks_of_live hb),
        Memory.toNat_address (Memory.mem_chunks_of_live hc), base'] at this
      have := Memory.base_lt_frontier (Memory.mem_chunks_of_live hb)
      omega
    · rw [same', same]
    · exact Nat.le_trans forward.frontier_le (place'.resolve_left full.2)
    · intro i hi
      show second.2.memory.load .u64 (first.1 + UInt64.ofNat (8 * i)) = .zero
      have := b.size_le_capacity
      rw [← address]
      exact load_of_zeros hb' zeros .u64 (by omega)
    · show second.2.memory.load .pointer second.1 = .zero
      rw [← address', ← UInt64.add_zero c.address]
      exact load_of_zeros hc zeros' .pointer (o := 0) c.capacity_pos

theorem fresh?_none {plan : Plan} (full : fresh? plan s = (none, s')) :
    s.memory.Evolves [] s'.memory ∧ s' = { s with memory := s'.memory } := by
  rw [fresh?_eq] at full
  obtain ⟨forward, same, place⟩ := reserve_spec (8 * plan.parameters.length) s
  generalize EngineM.reserve (8 * plan.parameters.length) s = first at *
  obtain ⟨forward', same', place'⟩ := reserve_spec 8 first.2
  generalize EngineM.reserve 8 first.2 = second at *
  have behind : second.1 = 0 ∨ s.memory.frontier ≤ second.1.toNat :=
    place'.imp_right fun high => Nat.le_trans forward.frontier_le high
  by_cases refused : (decide (first.1 = 0) || decide (second.1 = 0)) = true
  · rw [if_pos refused] at full
    have ends : s' = { second.2 with memory := (second.2.memory.release first.1).release second.1 } := by
      cases full
      rfl
    subst ends
    refine ⟨?_, ?_⟩
    · refine ((forward.trans forward').release_apart fun b hb => ?_).release_apart fun b hb => ?_
      · exact Memory.address_ne_of_behind place hb
      · exact Memory.address_ne_of_behind behind hb
    · rw [same', same]
  · rw [if_neg refused] at full
    cases full

end Frame

end Ferry
