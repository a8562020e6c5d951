import Ferry.Memory.Basic
import Mathlib.Algebra.GroupWithZero.Nat
import Mathlib.Data.List.Pairwise

/-!
# Reading and writing through chunks

Since chunks do not overlap, the chunk at an address is unique: `reach?_eq` finds it from mere membership.
What memory reads therefore depends on the set of its chunks alone (`reach?_congr`), so releasing a block
changes no reading, and a write changes one chunk and leaves every other as it was.
-/

set_option autoImplicit false

namespace Ferry

namespace Block

instance : Std.Symm Apart := ⟨fun _ _ => Apart.symm⟩

theorem capacity_pos (b : Block) : 0 < b.capacity := by
  unfold capacity; omega

theorem reaches_iff (b : Block) (a : Nat) : b.reaches a = true ↔ b.base ≤ a ∧ a < b.base + b.capacity := by
  simp [reaches]

theorem reaches_base (b : Block) : b.reaches b.base = true := by
  have := b.capacity_pos
  rw [reaches_iff]
  omega

theorem capacity_congr {b c : Block} (h : b.size = c.size) : b.capacity = c.capacity := by
  simp [capacity, h]

@[simp] theorem capacity_write (b : Block) (offset : Nat) (bytes : List UInt8) :
    (b.write offset bytes).capacity = b.capacity :=
  capacity_congr (size_write b offset bytes)

def address (b : Block) : UInt64 := UInt64.ofNat b.base

end Block

namespace Memory

/-- All chunks, of live blocks and of released ones. -/
def chunks (m : Memory) : List Block := m.blocks ++ m.released

/-- A block that starts at the address is alive. -/
def Live (m : Memory) (a : UInt64) : Prop := ∃ b ∈ m.blocks, b.address = a

instance (m : Memory) (a : UInt64) : Decidable (m.Live a) :=
  inferInstanceAs (Decidable (∃ b ∈ m.blocks, b.address = a))

variable {m m' : Memory} {b c : Block} {a : UInt64}

theorem mem_chunks : b ∈ m.chunks ↔ b ∈ m.blocks ∨ b ∈ m.released := List.mem_append

theorem mem_chunks_of_live (h : b ∈ m.blocks) : b ∈ m.chunks := mem_chunks.mpr (Or.inl h)

theorem frontier_lt (m : Memory) : m.frontier < 2 ^ 63 := by
  have := m.layout.frontier_le
  simp only [limit, granule] at this
  omega

theorem chunk_end_le (h : b ∈ m.chunks) : b.base + b.capacity ≤ m.frontier := m.layout.end_le b h

theorem base_lt_frontier (h : b ∈ m.chunks) : b.base < m.frontier := by
  have := chunk_end_le h
  have := b.capacity_pos
  omega

theorem toNat_address (h : b ∈ m.chunks) : b.address.toNat = b.base := by
  have := base_lt_frontier h
  have := m.frontier_lt
  simp only [Block.address, UInt64.toNat_ofNat']
  omega

theorem address_ne_zero (h : b ∈ m.chunks) : b.address ≠ 0 := by
  have first := m.layout.first_le b h
  intro zero
  have := toNat_address h
  rw [zero] at this
  simp only [firstBlock, UInt64.toNat_zero] at first this
  omega

/-- The chunk that an address lies in is unique. -/
theorem eq_of_reaches {n : Nat} (hb : b ∈ m.chunks) (hc : c ∈ m.chunks) (atB : b.reaches n = true)
    (atC : c.reaches n = true) : b = c := by
  by_contra differ
  have apart := m.layout.apart.forall hb hc differ
  rw [Block.reaches_iff] at atB atC
  unfold Block.Apart at apart
  omega

theorem eq_of_base (hb : b ∈ m.chunks) (hc : c ∈ m.chunks) (same : b.base = c.base) : b = c := by
  refine eq_of_reaches hb hc b.reaches_base ?_
  rw [same]
  exact c.reaches_base

theorem eq_of_address (hb : b ∈ m.chunks) (hc : c ∈ m.chunks) (same : b.address = c.address) : b = c := by
  refine eq_of_base hb hc ?_
  rw [← toNat_address hb, ← toNat_address hc, same]

/-- The search for the chunk at an address finds it from mere membership. -/
theorem reach?_eq (hb : b ∈ m.chunks) (reached : b.reaches a.toNat = true) :
    m.reach? a = some (b, a.toNat - b.base) := by
  have only : ∀ c ∈ m.chunks, c.reaches a.toNat = true → c = b :=
    fun c hc atC => eq_of_reaches hc hb atC reached
  unfold reach?
  cases live : m.blocks.find? (·.reaches a.toNat) with
  | some c =>
      have reaches : c.reaches a.toNat = true := by simpa using List.find?_some live
      have hc : c = b := only c (mem_chunks_of_live (List.mem_of_find?_eq_some live)) reaches
      simp [hc]
  | none =>
      cases dead : m.released.find? (·.reaches a.toNat) with
      | some c =>
          have reaches : c.reaches a.toNat = true := by simpa using List.find?_some dead
          have hc : c = b := only c (mem_chunks.mpr (Or.inr (List.mem_of_find?_eq_some dead))) reaches
          simp [hc]
      | none =>
          exfalso
          rcases mem_chunks.mp hb with hb | hb
          · exact List.find?_eq_none.mp live b hb reached
          · exact List.find?_eq_none.mp dead b hb reached

theorem reach?_eq_none (unreached : ∀ b ∈ m.chunks, b.reaches a.toNat = false) : m.reach? a = none := by
  have live : m.blocks.find? (·.reaches a.toNat) = none :=
    List.find?_eq_none.mpr fun b hb => by simp [unreached b (mem_chunks_of_live hb)]
  have dead : m.released.find? (·.reaches a.toNat) = none :=
    List.find?_eq_none.mpr fun b hb => by simp [unreached b (mem_chunks.mpr (Or.inr hb))]
  simp [reach?, live, dead]

theorem reach?_some_iff {o : Nat} :
    m.reach? a = some (b, o) ↔ b ∈ m.chunks ∧ b.reaches a.toNat = true ∧ o = a.toNat - b.base := by
  constructor
  · intro found
    by_cases some_chunk : ∃ c ∈ m.chunks, c.reaches a.toNat = true
    · obtain ⟨c, hc, reached⟩ := some_chunk
      rw [reach?_eq hc reached] at found
      cases found
      exact ⟨hc, reached, rfl⟩
    · have none_chunk : ∀ c ∈ m.chunks, c.reaches a.toNat = false := by
        intro c hc
        by_contra reached
        exact some_chunk ⟨c, hc, by simpa using reached⟩
      rw [reach?_eq_none none_chunk] at found
      cases found
  · rintro ⟨hb, reached, rfl⟩
    exact reach?_eq hb reached

/-- The reading of memory depends on the set of its chunks alone. -/
theorem reach?_congr (same : ∀ b, b ∈ m.chunks ↔ b ∈ m'.chunks) (a : UInt64) : m.reach? a = m'.reach? a := by
  cases found : m'.reach? a with
  | some p =>
      obtain ⟨b, o⟩ := p
      obtain ⟨hb, reached, offset⟩ := reach?_some_iff.mp found
      exact reach?_some_iff.mpr ⟨(same b).mpr hb, reached, offset⟩
  | none =>
      cases other : m.reach? a with
      | none => rfl
      | some p =>
          obtain ⟨b, o⟩ := p
          obtain ⟨hb, reached, offset⟩ := reach?_some_iff.mp other
          have := reach?_some_iff.mpr ⟨(same b).mp hb, reached, offset⟩
          rw [found] at this
          cases this

theorem read_congr (same : ∀ b, b ∈ m.chunks ↔ b ∈ m'.chunks) (a : UInt64) (n : Nat) :
    m.read a n = m'.read a n := by
  simp only [read, reach?_congr same]

theorem load_congr (same : ∀ b, b ∈ m.chunks ↔ b ∈ m'.chunks) (t : NativeType) (a : UInt64) :
    m.load t a = m'.load t a := by
  simp only [load, read_congr same]

theorem tail_congr (same : ∀ b, b ∈ m.chunks ↔ b ∈ m'.chunks) (a : UInt64) : m.tail a = m'.tail a := by
  simp only [tail, reach?_congr same]

theorem read_eq (hb : b ∈ m.chunks) (reached : b.reaches a.toNat = true) (n : Nat) :
    m.read a n = b.slice (a.toNat - b.base) n := by
  simp only [read, reach?_eq hb reached]

theorem load_eq (hb : b ∈ m.chunks) (reached : b.reaches a.toNat = true) (t : NativeType) :
    m.load t a = Slot.ofBytes (b.slice (a.toNat - b.base) t.size) := by
  simp only [load, read_eq hb reached]

theorem tail_eq (hb : b ∈ m.chunks) (reached : b.reaches a.toNat = true) :
    m.tail a = b.slice (a.toNat - b.base) (b.capacity - (a.toNat - b.base)) := by
  simp only [tail, reach?_eq hb reached]

/-! ## Making a block -/

section Allocate

variable {label : Label} {size : Nat}

theorem allocate?_some (made : m.allocate? label size = some (a, m')) :
    a.toNat = m.frontier ∧ m'.blocks = ⟨m.frontier, max size 1, label, #[]⟩ :: m.blocks ∧
      m'.released = m.released ∧ m.frontier < m'.frontier ∧ m'.engineBlocks = m.engineBlocks ∧
      m.frontier + max size 1 ≤ limit := by
  simp only [allocate?] at made
  split at made
  · rename_i fits
    simp only [Option.some.injEq, Prod.mk.injEq] at made
    obtain ⟨rfl, rfl⟩ := made
    have := m.frontier_lt
    refine ⟨?_, rfl, rfl, ?_, rfl, fits⟩
    · simp only [UInt64.toNat_ofNat']
      omega
    · simp only [granule]
      omega
  · cases made

theorem allocateEngine?_some (made : m.allocateEngine? size = some (a, m')) :
    a.toNat = m.frontier ∧ m'.blocks = ⟨m.frontier, max size 1, .engine m.engineBlocks, #[]⟩ :: m.blocks ∧
      m'.released = m.released ∧ m.frontier < m'.frontier ∧ m.frontier + max size 1 ≤ limit := by
  unfold allocateEngine? at made
  obtain ⟨p, found, rest⟩ := Option.map_eq_some_iff.mp made
  obtain ⟨x, m₁⟩ := p
  simp only [Prod.mk.injEq] at rest
  obtain ⟨rfl, rfl⟩ := rest
  obtain ⟨base, blocks, released, frontier, -, fits⟩ := allocate?_some found
  exact ⟨base, blocks, released, frontier, fits⟩

end Allocate

/-! ## Releasing a block -/

theorem mem_blocks_release : b ∈ (m.release a).blocks ↔ b ∈ m.blocks ∧ b.address ≠ a := by
  simp only [release, List.mem_filter, bne_iff_ne, ne_eq]
  refine and_congr_right fun hb => not_congr ?_
  constructor
  · intro same
    apply UInt64.toNat.inj
    rw [toNat_address (mem_chunks_of_live hb), same]
  · rintro rfl
    rw [toNat_address (mem_chunks_of_live hb)]

theorem mem_chunks_release : b ∈ (m.release a).chunks ↔ b ∈ m.chunks :=
  (releasing_perm m.blocks m.released a.toNat).symm.mem_iff

@[simp] theorem frontier_release (m : Memory) (a : UInt64) : (m.release a).frontier = m.frontier := rfl

/-- A released block stays readable: it moves from the live ones to the released ones. -/
theorem mem_released_release (hb : b ∈ m.released) : b ∈ (m.release a).released :=
  List.mem_append_right _ hb

/-! ## Writing -/

section Write

variable {bytes : List UInt8}

theorem rewrite_self (offset : Nat) : b.rewrite b.base offset bytes = b.write offset bytes := by
  simp [Block.rewrite]

theorem rewrite_of_ne {base : Nat} (offset : Nat) (h : b.base ≠ base) :
    b.rewrite base offset bytes = b := by
  simp [Block.rewrite, h]

@[simp] theorem frontier_write (m : Memory) (a : UInt64) (bytes : List UInt8) :
    (m.write a bytes).frontier = m.frontier := by
  unfold write
  split <;> rfl

@[simp] theorem frontier_store (m : Memory) (t : NativeType) (a : UInt64) (s : Slot) :
    (m.store t a s).frontier = m.frontier :=
  frontier_write m a _

theorem write_eq (hb : b ∈ m.chunks) (reached : b.reaches a.toNat = true) :
    m.write a bytes = m.writeBlock b.base (a.toNat - b.base) bytes := by
  simp only [write, reach?_eq hb reached]

theorem chunks_writeBlock (m : Memory) (base offset : Nat) (bytes : List UInt8) :
    (m.writeBlock base offset bytes).chunks = m.chunks.map (Block.rewrite base offset bytes) :=
  List.map_append.symm

/-- No write makes a block or moves one. -/
theorem exists_of_mem_write (hb : b ∈ (m.write a bytes).blocks) :
    ∃ c ∈ m.blocks, c.base = b.base ∧ c.size = b.size ∧ c.label = b.label := by
  unfold write at hb
  split at hb
  · obtain ⟨c, hc, rfl⟩ := List.mem_map.mp hb
    exact ⟨c, hc, by simp⟩
  · exact ⟨b, hb, rfl, rfl, rfl⟩

end Write

end Memory

end Ferry
