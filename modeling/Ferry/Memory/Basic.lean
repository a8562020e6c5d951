import Ferry.Memory.Block
import Ferry.Native.Slot

/-!
# Native memory

Memory is a collection of blocks that do not overlap. A block is made at an address that was never
used before, so a dead address never comes to life again. A released block is no longer anybody's, but
its bytes can be read and written as before. Reading outside of every chunk gives zeros, and writing
there changes nothing.
-/

namespace Ferry

namespace Memory

def lowest : Nat := 0x10000

def limit : Nat := 0x800000000000

def granule : Nat := 16

/-- Where blocks begin: far away from the numbers that a caller is likely to take for an address. Addresses
below stand for code and never for memory. -/
def firstBlock : Nat := 0x5d0c3a800000

/-- How the chunks lie: apart from each other, and all of them between the first address for blocks and
the first one that was never used. -/
structure Layout (chunks : List Block) (frontier : Nat) : Prop where
  apart : chunks.Pairwise Block.Apart
  first_le : ∀ b ∈ chunks, firstBlock ≤ b.base
  end_le : ∀ b ∈ chunks, b.base + b.capacity ≤ frontier
  frontier_le : frontier ≤ limit + 2 * granule
  first_le_frontier : firstBlock ≤ frontier

namespace Layout

variable {chunks other : List Block} {frontier : Nat}

theorem perm (h : Layout chunks frontier) (p : chunks.Perm other) : Layout other frontier where
  apart := (p.pairwise_iff Block.Apart.symm).mp h.apart
  first_le b hb := h.first_le b (p.mem_iff.mpr hb)
  end_le b hb := h.end_le b (p.mem_iff.mpr hb)
  frontier_le := h.frontier_le
  first_le_frontier := h.first_le_frontier

theorem map (h : Layout chunks frontier) (f : Block → Block) (base : ∀ b, (f b).base = b.base)
    (size : ∀ b, (f b).size = b.size) : Layout (chunks.map f) frontier := by
  have capacity : ∀ b, (f b).capacity = b.capacity := fun b => by simp [Block.capacity, size]
  constructor
  · rw [List.pairwise_map]
    refine h.apart.imp fun {b c} away => ?_
    simpa only [Block.Apart, base, capacity] using away
  · intro b hb
    obtain ⟨c, hc, rfl⟩ := List.mem_map.mp hb
    simpa only [base] using h.first_le c hc
  · intro b hb
    obtain ⟨c, hc, rfl⟩ := List.mem_map.mp hb
    simpa only [base, capacity] using h.end_le c hc
  · exact h.frontier_le
  · exact h.first_le_frontier

theorem cons (h : Layout chunks frontier) (label : Label) (room : Nat) (fits : frontier + room ≤ limit) :
    Layout (⟨frontier, room, label, #[]⟩ :: chunks) (frontier + (room / granule + 2) * granule) := by
  have short := Block.capacity_lt ⟨frontier, room, label, #[]⟩
  have first := h.first_le_frontier
  simp only [granule] at short ⊢
  refine ⟨?_, ?_, ?_, ?_, ?_⟩
  · refine List.pairwise_cons.mpr ⟨fun b hb => Or.inr ?_, h.apart⟩
    exact h.end_le b hb
  · intro b hb
    rcases List.mem_cons.mp hb with rfl | hb
    · exact h.first_le_frontier
    · exact h.first_le b hb
  · intro b hb
    rcases List.mem_cons.mp hb with rfl | hb
    · exact Nat.add_le_add_left (Nat.le_of_lt short) frontier
    · have := h.end_le b hb
      omega
  · simp only [limit] at fits ⊢
    simp only [granule]
    omega
  · omega

end Layout

end Memory

/-- The live blocks and the released ones, each latest first, and the first address that was never used. -/
structure Memory where
  blocks : List Block
  released : List Block
  frontier : Nat
  engineBlocks : Nat
  layout : Memory.Layout (blocks ++ released) frontier

namespace Memory

def empty : Memory where
  blocks := []
  released := []
  frontier := firstBlock
  engineBlocks := 0
  layout := ⟨.nil, by simp, by simp, by decide, by decide⟩

instance : Inhabited Memory := ⟨empty⟩

def locate? (m : Memory) (a : UInt64) : Option (Block × Nat) :=
  (m.blocks.find? (·.covers a.toNat)).map fun b => (b, a.toNat - b.base)

/-- The block through which an address can be read and written, with the offset there. -/
def reach? (m : Memory) (a : UInt64) : Option (Block × Nat) :=
  (m.blocks.find? (·.reaches a.toNat) <|> m.released.find? (·.reaches a.toNat)).map fun b =>
    (b, a.toNat - b.base)

/-- Makes a block of zeros; a block holds at least one byte. Fails when the address space has no room. -/
def allocate? (m : Memory) (label : Label) (size : Nat) : Option (UInt64 × Memory) :=
  let room := max size 1
  if fits : m.frontier + room ≤ limit then
    let next := m.frontier + (room / granule + 2) * granule
    let block : Block := ⟨m.frontier, room, label, #[]⟩
    some (UInt64.ofNat m.frontier,
      { m with blocks := block :: m.blocks, frontier := next, layout := m.layout.cons label room fits })
  else none

def allocateEngine? (m : Memory) (size : Nat) : Option (UInt64 × Memory) :=
  (m.allocate? (.engine m.engineBlocks) size).map fun (a, m) =>
    (a, { m with engineBlocks := m.engineBlocks + 1 })

def block? (m : Memory) (base : UInt64) : Option Block :=
  m.blocks.find? (·.base == base.toNat)

theorem releasing_perm (blocks released : List Block) (base : Nat) :
    (blocks ++ released).Perm
      (blocks.filter (·.base != base) ++ (blocks.filter (·.base == base) ++ released)) := by
  rw [← List.append_assoc]
  refine List.Perm.append_right released ?_
  have split := List.filter_append_perm (fun b : Block => b.base == base) blocks
  exact split.symm.trans List.perm_append_comm

def release (m : Memory) (base : UInt64) : Memory :=
  { m with
    blocks := m.blocks.filter (·.base != base.toNat)
    released := m.blocks.filter (·.base == base.toNat) ++ m.released
    layout := m.layout.perm (releasing_perm m.blocks m.released base.toNat) }

def writeBlock (m : Memory) (base offset : Nat) (bytes : List UInt8) : Memory :=
  { m with
    blocks := m.blocks.map (Block.rewrite base offset bytes)
    released := m.released.map (Block.rewrite base offset bytes)
    layout := by
      rw [← List.map_append]
      exact m.layout.map _ (Block.base_rewrite base offset bytes) (Block.size_rewrite base offset bytes) }

def read (m : Memory) (a : UInt64) (n : Nat) : List UInt8 :=
  match m.reach? a with
  | some (b, offset) => b.slice offset n
  | none => List.replicate n 0

/-- Replaces the bytes from an address on, as far as the chunk there reaches. -/
def write (m : Memory) (a : UInt64) (bytes : List UInt8) : Memory :=
  match m.reach? a with
  | some (b, offset) => m.writeBlock b.base offset bytes
  | none => m

def load (m : Memory) (t : NativeType) (a : UInt64) : Slot :=
  Slot.ofBytes (m.read a t.size)

def store (m : Memory) (t : NativeType) (a : UInt64) (s : Slot) : Memory :=
  m.write a (s.toBytes t)

def tail (m : Memory) (a : UInt64) : List UInt8 :=
  match m.reach? a with
  | some (b, offset) => b.slice offset (b.capacity - offset)
  | none => []

def text (m : Memory) (a : UInt64) : List UInt8 :=
  (m.tail a).takeWhile (· != 0)

def engineLabels (m : Memory) : List String :=
  m.blocks.reverse.filterMap fun b =>
    match b.label with
    | .engine _ => b.label.text?
    | _ => none

end Memory

end Ferry
