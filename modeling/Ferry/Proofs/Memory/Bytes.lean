import Ferry.Proofs.Memory.Evolution

/-!
# The bytes of a write

A write leaves the bytes that were written at its address (`read_write_self`) and every other byte of memory as it was
(`read_write_beside`). Both are said of one byte at a time in `byte_write`.
-/

set_option autoImplicit false

namespace Ferry

/-! ## Reading beside a write -/

theorem Block.slice_append (b : Block) (offset n k : Nat) :
    b.slice offset (n + k) = b.slice offset n ++ b.slice (offset + n) k := by
  simp only [slice, List.range_add, List.map_append, List.map_map, Function.comp_def, Nat.add_assoc]

theorem Block.byte_write_beside (b : Block) (offset : Nat) (bytes : List UInt8) {i : Nat}
    (beside : i < offset ∨ offset + bytes.length ≤ i) : (b.write offset bytes).byte i = b.byte i := by
  induction bytes generalizing b offset with
  | nil => rfl
  | cons v rest ih =>
      simp only [List.length_cons] at beside
      rw [write, ih _ (offset + 1) (by omega)]
      by_cases room : offset < b.capacity
      · rw [byte_setByte b offset i v room, if_neg (by omega)]
      · rw [setByte, if_neg room]

namespace Memory

variable {m : Memory}

theorem read_write_beside (m : Memory) {a x : UInt64} (bytes : List UInt8) {n : Nat}
    (beside : x.toNat + n ≤ a.toNat ∨ a.toNat + bytes.length ≤ x.toNat) : (m.write a bytes).read x n = m.read x n := by
  cases target : m.reach? a with
  | none => simp only [write, target]
  | some p =>
      obtain ⟨c, o⟩ := p
      obtain ⟨hc, atC, rfl⟩ := reach?_some_iff.mp target
      rw [write_eq hc atC]
      have reaches : ∀ d : Block, (d.rewrite c.base (a.toNat - c.base) bytes).reaches x.toNat = d.reaches x.toNat :=
        fun d => by simp only [Block.reaches, Block.base_rewrite, Block.capacity_congr (Block.size_rewrite _ _ _ d)]
      cases found : m.reach? x with
      | none =>
          have unreached : (m.writeBlock c.base (a.toNat - c.base) bytes).reach? x = none := by
            refine reach?_eq_none fun e he => ?_
            rw [chunks_writeBlock] at he
            obtain ⟨d, hd, rfl⟩ := List.mem_map.mp he
            rw [reaches]
            by_contra reached
            have := reach?_eq hd (by simpa using reached)
            rw [found] at this
            cases this
          simp only [read, unreached, found]
      | some q =>
          obtain ⟨d, k⟩ := q
          obtain ⟨hd, atD, rfl⟩ := reach?_some_iff.mp found
          have moved : d.rewrite c.base (a.toNat - c.base) bytes ∈
              (m.writeBlock c.base (a.toNat - c.base) bytes).chunks := by
            rw [chunks_writeBlock]
            exact List.mem_map.mpr ⟨d, hd, rfl⟩
          rw [read_eq moved (by rw [reaches]; exact atD), read_eq hd atD, Block.base_rewrite]
          refine List.map_congr_left fun i hi => ?_
          have hi := List.mem_range.mp hi
          by_cases here : d.base = c.base
          · have same := eq_of_base hd hc here
            subst same
            rw [Block.reaches_iff] at atC atD
            rw [rewrite_self, Block.byte_write_beside _ _ _ (by omega)]
          · rw [rewrite_of_ne _ here]

theorem rewrite_nil (base offset : Nat) (b : Block) : b.rewrite base offset [] = b := by
  unfold Block.rewrite
  split <;> rfl

/-- A range inside of a chunk is written there, even an empty one at its very end. -/
theorem chunks_write_inside {c : Block} (hc : c ∈ m.chunks) {a : UInt64} {bytes : List UInt8} (low : c.base ≤ a.toNat)
    (fits : a.toNat + bytes.length ≤ c.base + c.capacity) :
    (m.write a bytes).chunks = m.chunks.map (Block.rewrite c.base (a.toNat - c.base) bytes) := by
  cases bytes with
  | nil =>
      have idle : ∀ base offset, m.chunks.map (Block.rewrite base offset []) = m.chunks := fun base offset =>
        List.map_id'' (rewrite_nil base offset) _
      rw [idle]
      unfold write
      split
      · rw [chunks_writeBlock, idle]
      · rfl
  | cons v rest =>
      rw [List.length_cons] at fits
      rw [write_eq hc ((c.reaches_iff _).mpr ⟨low, by omega⟩), chunks_writeBlock]

theorem mem_chunks_write {c : Block} (hc : c ∈ m.chunks) {a : UInt64} {bytes : List UInt8} (low : c.base ≤ a.toNat)
    (fits : a.toNat + bytes.length ≤ c.base + c.capacity) :
    c.write (a.toNat - c.base) bytes ∈ (m.write a bytes).chunks := by
  rw [chunks_write_inside hc low fits]
  exact List.mem_map.mpr ⟨c, hc, rewrite_self _⟩

theorem read_nil (m : Memory) (a : UInt64) : m.read a 0 = [] := by
  unfold read
  split <;> rfl

theorem read_inside {c : Block} (hc : c ∈ m.chunks) {a : UInt64} {n : Nat} (low : c.base ≤ a.toNat)
    (fits : a.toNat + n ≤ c.base + c.capacity) : m.read a n = c.slice (a.toNat - c.base) n := by
  cases n with
  | zero => exact m.read_nil a
  | succ n => exact read_eq hc ((c.reaches_iff _).mpr ⟨low, by omega⟩) _

/-! ## Reading what was written -/

/-- As many bytes from an address on lie in one chunk of memory. -/
def Writable (m : Memory) (a : UInt64) (n : Nat) : Prop :=
  0 < n → ∃ c ∈ m.chunks, c.base ≤ a.toNat ∧ a.toNat + n ≤ c.base + c.capacity

theorem read_write_self (m : Memory) {a : UInt64} (bytes : List UInt8) (writable : m.Writable a bytes.length) :
    (m.write a bytes).read a bytes.length = bytes := by
  rcases Nat.eq_zero_or_pos bytes.length with none | some
  · rw [none, read_nil, List.length_eq_zero_iff.mp none]
  · obtain ⟨c, hc, low, fits⟩ := writable some
    have moved := mem_chunks_write hc low fits
    rw [read_inside moved (by simpa using low) (by simpa using fits), Block.base_write,
      Block.slice_write_self _ _ (by omega)]

/-- The byte at an address. -/
def byte (m : Memory) (a : UInt64) : UInt8 :=
  (m.read a 1).headD 0

theorem byte_eq {b : Block} (hb : b ∈ m.chunks) {a : UInt64} (reached : b.reaches a.toNat = true) :
    m.byte a = b.byte (a.toNat - b.base) := by
  rw [byte, read_eq hb reached]
  rfl

theorem byte_write {a : UInt64} {bytes : List UInt8} (writable : m.Writable a bytes.length) (x : UInt64) :
    (m.write a bytes).byte x =
      if a.toNat ≤ x.toNat ∧ x.toNat < a.toNat + bytes.length then bytes[x.toNat - a.toNat]?.getD 0 else m.byte x := by
  split
  · rename_i inside
    obtain ⟨c, hc, low, fits⟩ := writable (by omega)
    have moved := mem_chunks_write hc low fits
    have reached : (c.write (a.toNat - c.base) bytes).reaches x.toNat = true := by
      rw [Block.reaches_iff, Block.base_write, Block.capacity_write]
      omega
    have index : x.toNat - c.base - (a.toNat - c.base) = x.toNat - a.toNat := by omega
    have listed : x.toNat - a.toNat < bytes.length := by omega
    rw [byte_eq moved reached, Block.base_write, Block.byte_write _ _ (by omega), if_pos (by omega), index,
      List.getElem?_eq_getElem listed]
    rfl
  · rename_i outside
    rw [byte, byte, read_write_beside m bytes (by omega)]

end Memory

end Ferry
