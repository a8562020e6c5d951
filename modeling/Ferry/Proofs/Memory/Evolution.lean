import Ferry.Marshal.Array
import Ferry.Proofs.Memory.Reading

/-!
# How memory moves forward

`Memory.Evolves touched m m'` says that every live block of `m` is still alive in `m'` and holds what it held,
the touched ones excepted, and that no dead address came to life again. Allocations and writes move memory
forward in this sense. Beside it stand the lemmas on what a block reads after a write: arrays are read element
by element, at `Block.element`.
-/

set_option autoImplicit false

namespace Ferry

namespace Block

variable {b : Block}

theorem byte_write (offset : Nat) (bytes : List UInt8) (fits : offset + bytes.length ≤ b.capacity) (j : Nat) :
    (b.write offset bytes).byte j =
      if offset ≤ j then bytes[j - offset]?.getD (b.byte j) else b.byte j := by
  induction bytes generalizing b offset with
  | nil => simp [write]
  | cons v rest ih =>
      have room : offset < b.capacity := by
        simp only [List.length_cons] at fits
        omega
      have further : offset + 1 + rest.length ≤ (b.setByte offset v).capacity := by
        rw [capacity_congr (size_setByte b offset v)]
        simp only [List.length_cons] at fits
        omega
      rw [write, ih (offset + 1) further, byte_setByte b offset j v room]
      by_cases before : j < offset
      · rw [if_neg (by omega), if_neg (by omega), if_neg (by omega)]
      · by_cases here : j = offset
        · subst here
          rw [if_pos rfl, if_neg (by omega), if_pos (Nat.le_refl j), Nat.sub_self]
          rfl
        · have shift : j - offset = (j - (offset + 1)) + 1 := by omega
          rw [if_neg here, if_pos (by omega), if_pos (by omega), shift, List.getElem?_cons_succ]

theorem slice_write_self (offset : Nat) (bytes : List UInt8) (fits : offset + bytes.length ≤ b.capacity) :
    (b.write offset bytes).slice offset bytes.length = bytes := by
  refine List.ext_getElem (by simp [slice]) fun k _ hk => ?_
  simp only [slice, List.getElem_map, List.getElem_range]
  rw [byte_write offset bytes fits, if_pos (by omega)]
  simp [hk]

theorem slice_write_apart (offset : Nat) (bytes : List UInt8) (fits : offset + bytes.length ≤ b.capacity)
    {start n : Nat} (apart : start + n ≤ offset ∨ offset + bytes.length ≤ start) :
    (b.write offset bytes).slice start n = b.slice start n := by
  refine List.map_congr_left fun k hk => ?_
  have hk := List.mem_range.mp hk
  rw [byte_write offset bytes fits]
  split
  · rw [List.getElem?_eq_none (by omega), Option.getD_none]
  · rfl

theorem slice_fresh (base size : Nat) (label : Label) (offset n : Nat) :
    (Block.mk base size label #[]).slice offset n = List.replicate n 0 := by
  refine List.ext_getElem (by simp [slice]) fun k _ _ => ?_
  simp [slice, byte]

theorem slice_take (b : Block) (o n k : Nat) (fits : k ≤ n) : (b.slice o n).take k = b.slice o k := by
  rw [slice, ← List.map_take, List.take_range, Nat.min_eq_left fits]
  rfl

theorem slice_drop (b : Block) (o n k : Nat) : (b.slice o n).drop k = b.slice (o + k) (n - k) := by
  refine List.ext_getElem (by simp [slice]) fun i _ _ => ?_
  simp [Block.slice, Nat.add_assoc]

/-- The element of an array that fills the block. -/
def element (b : Block) (t : NativeType) (i : Nat) : Slot :=
  Slot.ofBytes (b.slice (i * t.size) t.size)

end Block

namespace LittleEndian

theorem bound_eq (n : Nat) : bound n = 2 ^ (8 * n) := by
  induction n with
  | zero => rfl
  | succ n ih => rw [bound, ih, Nat.mul_succ, Nat.pow_add, Nat.mul_comm]

/-- A word has room for eight bytes. -/
theorem decode_lt_word {bytes : List UInt8} (short : bytes.length ≤ 8) : decode bytes < 2 ^ 64 := by
  have low := decode_lt bytes
  rw [bound_eq] at low
  exact Nat.lt_of_lt_of_le low (Nat.pow_le_pow_right (by decide) (Nat.mul_le_mul_left 8 short))

end LittleEndian

namespace Slot

theorem ofBytes_toBytes (t : NativeType) (s : Slot) : ofBytes (s.toBytes t) = ofNat (s.payload t) := by
  rw [ofBytes, toBytes, LittleEndian.decode_encode]
  rfl

theorem length_toBytes (t : NativeType) (s : Slot) : (s.toBytes t).length = t.size := by
  rw [toBytes, LittleEndian.length_encode]

theorem ofBytes_toBytes_word {t : NativeType} (word : t.size = 8) (s : Slot) : ofBytes (s.toBytes t) = s := by
  have bound : LittleEndian.bound t.size = 2 ^ 64 := by rw [word]; rfl
  have low : s.bits.toNat < 2 ^ 64 := s.bits.toNat_lt
  rw [ofBytes_toBytes, payload, bound, Nat.mod_eq_of_lt low, ofNat, UInt64.ofNat_toNat]

theorem ofNat_payload_word {t : NativeType} (word : t.size = 8) (s : Slot) : ofNat (s.payload t) = s := by
  rw [← ofBytes_toBytes, ofBytes_toBytes_word word]

theorem ofBytes_zeros (n : Nat) : ofBytes (List.replicate n 0) = zero := by
  have zeros : LittleEndian.decode (List.replicate n 0) = 0 := by
    induction n with
    | zero => rfl
    | succ n ih => simp [List.replicate_succ, LittleEndian.decode, ih]
  rw [ofBytes, zeros]
  rfl

theorem toNat_ofBytes {bytes : List UInt8} (short : bytes.length ≤ 8) :
    (ofBytes bytes).bits.toNat = LittleEndian.decode bytes := by
  show (UInt64.ofNat _).toNat = _
  rw [UInt64.toNat_ofNat', Nat.mod_eq_of_lt (LittleEndian.decode_lt_word short)]

/-- A word is null when all of its bytes are zero. -/
theorem ofBytes_isNull_iff {bytes : List UInt8} (short : bytes.length ≤ 8) :
    (ofBytes bytes).isNull = true ↔ bytes.all (· == 0) = true := by
  have zero : (ofBytes bytes).isNull = true ↔ LittleEndian.decode bytes = 0 := by
    rw [isNull, beq_iff_eq, ← UInt64.toNat_inj, toNat_ofBytes short]
    rfl
  rw [zero]
  clear zero short
  induction bytes with
  | nil => simp [LittleEndian.decode]
  | cons v rest ih =>
      have head : v.toNat = 0 ↔ v = 0 := by
        rw [← UInt8.toNat_inj]
        rfl
      simp only [LittleEndian.decode, List.all_cons, Bool.and_eq_true, beq_iff_eq, ← ih, ← head]
      omega

end Slot

theorem Block.element_fresh (base size : Nat) (label : Label) (t : NativeType) (i : Nat) :
    (Block.mk base size label #[]).element t i = .zero := by
  rw [Block.element, Block.slice_fresh, Slot.ofBytes_zeros]

theorem Block.element_inside {b : Block} {t : NativeType} {i : Nat} (room : (i + 1) * t.size ≤ b.capacity) :
    i * t.size < b.capacity := by
  have := b.capacity_pos
  rw [Nat.succ_mul] at room
  rcases Nat.eq_zero_or_pos t.size with none | some
  · rw [none, Nat.mul_zero]
    exact this
  · omega

namespace Memory

variable {m m' m'' : Memory} {b : Block} {a : UInt64} {touched : List UInt64}

/-! ## Places inside of a block -/

theorem toNat_address_add (hb : b ∈ m.chunks) {o : Nat} (inside : o < b.capacity) :
    (b.address + UInt64.ofNat o).toNat = b.base + o := by
  have := chunk_end_le hb
  have := m.frontier_lt
  simp only [UInt64.toNat_add, toNat_address hb, UInt64.toNat_ofNat']
  omega

theorem reaches_address_add (hb : b ∈ m.chunks) {o : Nat} (inside : o < b.capacity) :
    b.reaches (b.address + UInt64.ofNat o).toNat = true := by
  rw [toNat_address_add hb inside, Block.reaches_iff]
  omega

theorem load_address_add (hb : b ∈ m.chunks) {o : Nat} (inside : o < b.capacity) (t : NativeType) :
    m.load t (b.address + UInt64.ofNat o) = Slot.ofBytes (b.slice o t.size) := by
  rw [load_eq hb (reaches_address_add hb inside), toNat_address_add hb inside, Nat.add_sub_cancel_left]

theorem load_element (hb : b ∈ m.chunks) (t : NativeType) {i : Nat} (inside : i * t.size < b.capacity) :
    m.load t (elementAddress b.address t i) = b.element t i :=
  load_address_add hb inside t

theorem write_address_add (hb : b ∈ m.chunks) {o : Nat} (inside : o < b.capacity) (bytes : List UInt8) :
    m.write (b.address + UInt64.ofNat o) bytes = m.writeBlock b.base o bytes := by
  rw [write_eq hb (reaches_address_add hb inside), toNat_address_add hb inside, Nat.add_sub_cancel_left]

theorem mem_writeBlock_self (hb : b ∈ m.chunks) (o : Nat) (bytes : List UInt8) :
    b.write o bytes ∈ (m.writeBlock b.base o bytes).chunks := by
  rw [chunks_writeBlock]
  exact List.mem_map.mpr ⟨b, hb, rewrite_self o⟩

/-- What a store changes in the chunk that it goes to: one element, and nothing beside it. -/
theorem exists_chunk_store (hb : b ∈ m.chunks) (t : NativeType) {o : Nat} (fits : o + t.size ≤ b.capacity)
    (inside : o < b.capacity) (x : Slot) :
    ∃ b' ∈ (m.store t (b.address + UInt64.ofNat o) x).chunks, b'.base = b.base ∧ b'.size = b.size ∧
      b'.label = b.label ∧ Slot.ofBytes (b'.slice o t.size) = Slot.ofNat (x.payload t) ∧
      ∀ start n, start + n ≤ o ∨ o + t.size ≤ start → b'.slice start n = b.slice start n := by
  have length := Slot.length_toBytes t x
  refine ⟨b.write o (x.toBytes t), ?_, by simp, by simp, by simp, ?_, ?_⟩
  · rw [store, write_address_add hb inside]
    exact mem_writeBlock_self hb o _
  · have whole := Block.slice_write_self o (x.toBytes t) (by rw [length]; exact fits)
    rw [length] at whole
    rw [whole, Slot.ofBytes_toBytes]
  · intro start n apart
    exact Block.slice_write_apart o (x.toBytes t) (by rw [length]; exact fits) (by rw [length]; exact apart)

/-- What a store changes in an array that fills the block: one element. -/
theorem exists_element_store (hb : b ∈ m.chunks) {t : NativeType} {i : Nat} (room : (i + 1) * t.size ≤ b.capacity)
    (x : Slot) :
    ∃ b' ∈ (m.store t (elementAddress b.address t i) x).chunks, b'.base = b.base ∧ b'.size = b.size ∧
      b'.label = b.label ∧ b'.element t i = Slot.ofNat (x.payload t) ∧ ∀ j, j ≠ i → b'.element t j = b.element t j := by
  have product : (i + 1) * t.size = i * t.size + t.size := Nat.succ_mul i _
  obtain ⟨b', hb', base, size, label, stored, apart⟩ := exists_chunk_store hb t
    (show i * t.size + t.size ≤ b.capacity by omega) (Block.element_inside room) x
  refine ⟨b', hb', base, size, label, stored, fun j other => ?_⟩
  rw [Block.element, Block.element, apart]
  rcases Nat.lt_or_gt_of_ne other with before | behind
  · left
    calc j * t.size + t.size = (j + 1) * t.size := (Nat.succ_mul j _).symm
      _ ≤ i * t.size := Nat.mul_le_mul_right _ before
  · right
    calc i * t.size + t.size = (i + 1) * t.size := product.symm
      _ ≤ j * t.size := Nat.mul_le_mul_right _ behind

/-! ## Moving forward -/

/-- Blocks stay alive and hold what they held, except the touched ones, and the dead stay dead. -/
structure Evolves (touched : List UInt64) (m m' : Memory) : Prop where
  frontier_le : m.frontier ≤ m'.frontier
  keeps : ∀ b ∈ m.blocks, ∃ b' ∈ m'.blocks, b'.base = b.base ∧ b'.size = b.size ∧ b'.label = b.label ∧
    (b.address ∉ touched → b' = b)
  dead : ∀ b ∈ m.released, b.address ∉ touched → b ∈ m'.released
  old : ∀ b' ∈ m'.blocks, b'.base < m.frontier → ∃ b ∈ m.blocks, b.base = b'.base

namespace Evolves

theorem refl (touched : List UInt64) (m : Memory) : Evolves touched m m :=
  ⟨Nat.le_refl _, fun b hb => ⟨b, hb, rfl, rfl, rfl, fun _ => rfl⟩, fun _ hb _ => hb, fun b hb _ => ⟨b, hb, rfl⟩⟩

theorem mono {more : List UInt64} (h : Evolves touched m m') (sub : ∀ a ∈ touched, a ∈ more) :
    Evolves more m m' where
  frontier_le := h.frontier_le
  keeps b hb := by
    obtain ⟨b', hb', base, size, label, same⟩ := h.keeps b hb
    exact ⟨b', hb', base, size, label, fun out => same fun hit => out (sub _ hit)⟩
  dead b hb out := h.dead b hb fun hit => out (sub _ hit)
  old := h.old

theorem of_nil (h : Evolves [] m m') : Evolves touched m m' :=
  h.mono (by simp)

theorem trans (first : Evolves touched m m') (second : Evolves touched m' m'') : Evolves touched m m'' where
  frontier_le := Nat.le_trans first.frontier_le second.frontier_le
  keeps b hb := by
    obtain ⟨b', hb', base, size, label, same⟩ := first.keeps b hb
    obtain ⟨b'', hb'', base', size', label', same'⟩ := second.keeps b' hb'
    refine ⟨b'', hb'', base'.trans base, size'.trans size, label'.trans label, fun out => ?_⟩
    rw [← same out]
    exact same' (by rw [same out]; exact out)
  dead b hb out := second.dead b (first.dead b hb out) out
  old b'' hb'' low := by
    obtain ⟨b', hb', base'⟩ := second.old b'' hb'' (Nat.lt_of_lt_of_le low first.frontier_le)
    obtain ⟨b, hb, base⟩ := first.old b' hb' (by rw [base']; exact low)
    exact ⟨b, hb, base.trans base'⟩

/-- Touching no block of the beginning touches nothing. -/
theorem trans_apart (first : Evolves [] m m') (second : Evolves touched m' m'')
    (apart : ∀ b ∈ m.chunks, b.address ∉ touched) : Evolves [] m m'' where
  frontier_le := Nat.le_trans first.frontier_le second.frontier_le
  keeps b hb := by
    obtain ⟨b', hb', -, -, -, same⟩ := first.keeps b hb
    have same : b' = b := same (by simp)
    subst same
    obtain ⟨b'', hb'', base', size', label', same'⟩ := second.keeps b' hb'
    exact ⟨b'', hb'', base', size', label', fun _ => same' (apart b' (mem_chunks_of_live hb))⟩
  dead b hb _ := second.dead b (first.dead b hb (by simp)) (apart b (mem_chunks.mpr (Or.inr hb)))
  old b'' hb'' low := by
    obtain ⟨b', hb', base'⟩ := second.old b'' hb'' (Nat.lt_of_lt_of_le low first.frontier_le)
    obtain ⟨b, hb, base⟩ := first.old b' hb' (by rw [base']; exact low)
    exact ⟨b, hb, base.trans base'⟩

theorem mem (h : Evolves touched m m') (hb : b ∈ m.blocks) (out : b.address ∉ touched) : b ∈ m'.blocks := by
  obtain ⟨b', hb', -, -, -, same⟩ := h.keeps b hb
  rw [← same out]
  exact hb'

theorem mem_chunks (h : Evolves touched m m') (hb : b ∈ m.chunks) (out : b.address ∉ touched) : b ∈ m'.chunks := by
  rcases Memory.mem_chunks.mp hb with live | dead
  · exact mem_chunks_of_live (h.mem live out)
  · exact Memory.mem_chunks.mpr (Or.inr (h.dead b dead out))

theorem live (h : Evolves touched m m') (alive : m.Live a) : m'.Live a := by
  obtain ⟨b, hb, rfl⟩ := alive
  obtain ⟨b', hb', base, -, -, -⟩ := h.keeps b hb
  exact ⟨b', hb', by simp [Block.address, base]⟩

end Evolves

theorem Live.toNat_lt (alive : m.Live a) : a.toNat < m.frontier := by
  obtain ⟨b, hb, rfl⟩ := alive
  rw [toNat_address (mem_chunks_of_live hb)]
  exact base_lt_frontier (mem_chunks_of_live hb)

theorem Live.ne_zero (alive : m.Live a) : a ≠ 0 := by
  obtain ⟨b, hb, rfl⟩ := alive
  exact address_ne_zero (mem_chunks_of_live hb)

section Allocate

variable {label : Label} {size : Nat}

theorem evolves_of_blocks (next : m.frontier < m'.frontier) (block : Block) (base : block.base = m.frontier)
    (blocks : m'.blocks = block :: m.blocks) (released : m'.released = m.released) : Evolves [] m m' where
  frontier_le := Nat.le_of_lt next
  dead b hb _ := by
    rw [released]
    exact hb
  keeps b hb := ⟨b, by rw [blocks]; exact List.mem_cons_of_mem _ hb, rfl, rfl, rfl, fun _ => rfl⟩
  old b' hb' low := by
    rw [blocks] at hb'
    rcases List.mem_cons.mp hb' with rfl | hb'
    · omega
    · exact ⟨b', hb', rfl⟩

theorem allocate?_evolves (made : m.allocate? label size = some (a, m')) : Evolves [] m m' := by
  obtain ⟨-, blocks, released, next, -⟩ := allocate?_some made
  exact evolves_of_blocks next _ rfl blocks released

theorem allocateEngine?_evolves (made : m.allocateEngine? size = some (a, m')) : Evolves [] m m' := by
  obtain ⟨-, blocks, released, next, -⟩ := allocateEngine?_some made
  exact evolves_of_blocks next _ rfl blocks released

theorem allocateEngine?_block (made : m.allocateEngine? size = some (a, m')) :
    ∃ b ∈ m'.blocks, b.address = a ∧ b.base = m.frontier ∧ b.size = max size 1 ∧ b.stored = #[] := by
  obtain ⟨base, blocks, -⟩ := allocateEngine?_some made
  refine ⟨_, by rw [blocks]; exact List.mem_cons_self, ?_, rfl, rfl, rfl⟩
  rw [Block.address, ← base, UInt64.ofNat_toNat]

/-- A new block of zeros is alive, and everything else is as it was. -/
theorem allocateEngine?_adds (made : m.allocateEngine? size = some (a, m')) :
    ∃ new : Block, new.address = a ∧ new.base = m.frontier ∧ new.size = max size 1 ∧ (∀ i, new.byte i = 0) ∧
      (∀ x, m'.Live x ↔ m.Live x ∨ x = a) ∧ ∀ c, c ∈ m'.chunks ↔ c = new ∨ c ∈ m.chunks := by
  obtain ⟨base, blocks, released, -⟩ := allocateEngine?_some made
  have address : (Block.mk m.frontier (max size 1) (.engine m.engineBlocks) #[]).address = a := by
    rw [Block.address, ← base, UInt64.ofNat_toNat]
  refine ⟨_, address, rfl, rfl, fun _ => rfl, fun x => ?_, fun c => ?_⟩
  · simp only [Live, blocks, List.mem_cons]
    constructor
    · rintro ⟨c, rfl | hc, rfl⟩
      · exact Or.inr address
      · exact Or.inl ⟨c, hc, rfl⟩
    · rintro (⟨c, hc, rfl⟩ | rfl)
      · exact ⟨c, Or.inr hc, rfl⟩
      · exact ⟨_, Or.inl rfl, address⟩
  · rw [mem_chunks, mem_chunks, blocks, released, List.mem_cons, or_assoc]

theorem allocate?_block (made : m.allocate? label size = some (a, m')) :
    ∃ b ∈ m'.blocks, b.address = a ∧ b.base = m.frontier ∧ b.size = max size 1 ∧ b.stored = #[] := by
  obtain ⟨base, blocks, -⟩ := allocate?_some made
  refine ⟨_, by rw [blocks]; exact List.mem_cons_self, ?_, rfl, rfl, rfl⟩
  rw [Block.address, ← base, UInt64.ofNat_toNat]

end Allocate

/-- A write touches the block that it goes to. -/
theorem write_evolves (hb : b ∈ m.chunks) (reached : b.reaches a.toNat = true) (bytes : List UInt8) :
    Evolves [b.address] m (m.write a bytes) where
  frontier_le := Nat.le_of_eq (frontier_write m a bytes).symm
  keeps c hc := by
    rw [write_eq hb reached]
    refine ⟨c.rewrite b.base (a.toNat - b.base) bytes, List.mem_map.mpr ⟨c, hc, rfl⟩, by simp, by simp, by simp,
      fun out => rewrite_of_ne _ fun same => ?_⟩
    exact out (by simp [Block.address, same])
  dead c hc out := by
    rw [write_eq hb reached]
    refine List.mem_map.mpr ⟨c, hc, rewrite_of_ne _ fun same => ?_⟩
    exact out (by simp [Block.address, same])
  old c hc _ := by
    obtain ⟨d, hd, base, -⟩ := exists_of_mem_write hc
    exact ⟨d, hd, base⟩

/-- A write behind everything that was there touches nothing of it. -/
theorem Evolves.write_behind (h : Evolves [] m m') (behind : m.frontier ≤ a.toNat) (bytes : List UInt8) :
    Evolves [] m (m'.write a bytes) := by
  cases found : m'.reach? a with
  | none =>
      have same : m'.write a bytes = m' := by simp only [write, found]
      rw [same]
      exact h
  | some p =>
      obtain ⟨c, o⟩ := p
      obtain ⟨hc, reached, -⟩ := reach?_some_iff.mp found
      refine h.trans_apart (write_evolves hc reached bytes) fun b hb same => ?_
      have same : b = c := eq_of_address (h.mem_chunks hb (by simp)) hc (by simpa using same)
      have := chunk_end_le hb
      rw [← same, Block.reaches_iff] at reached
      omega

/-- Releasing what no block of the beginning is touches nothing of it. -/
theorem Evolves.release_apart (h : Evolves [] m m') (apart : ∀ b ∈ m.blocks, b.address ≠ a) :
    Evolves [] m (m'.release a) where
  frontier_le := h.frontier_le
  dead b hb _ := mem_released_release (h.dead b hb (by simp))
  keeps b hb := ⟨b, mem_blocks_release.mpr ⟨h.mem hb (by simp), apart b hb⟩, rfl, rfl, rfl, fun _ => rfl⟩
  old b' hb' low := h.old b' (mem_blocks_release.mp hb').1 low

/-- What lies behind everything that was there, or nowhere, is no block of the beginning. -/
theorem address_ne_of_behind (behind : a = 0 ∨ m.frontier ≤ a.toNat) (hb : b ∈ m.blocks) : b.address ≠ a := by
  rintro rfl
  rcases behind with null | behind
  · exact address_ne_zero (mem_chunks_of_live hb) null
  · rw [toNat_address (mem_chunks_of_live hb)] at behind
    have := base_lt_frontier (mem_chunks_of_live hb)
    omega

theorem write_address_evolves (hb : b ∈ m.blocks) {o : Nat} (inside : o < b.capacity) (bytes : List UInt8) :
    Evolves [b.address] m (m.write (b.address + UInt64.ofNat o) bytes) :=
  write_evolves (mem_chunks_of_live hb) (reaches_address_add (mem_chunks_of_live hb) inside) bytes

/-! ## Places -/

/-- Everything lies where it lay. -/
def SamePlaces (m m' : Memory) : Prop :=
  ∀ b ∈ m.chunks, ∃ b' ∈ m'.chunks, b'.base = b.base ∧ b'.size = b.size

theorem SamePlaces.refl (m : Memory) : m.SamePlaces m := fun b hb => ⟨b, hb, rfl, rfl⟩

theorem SamePlaces.trans (first : m.SamePlaces m') (second : m'.SamePlaces m'') :
    m.SamePlaces m'' := by
  intro b hb
  obtain ⟨b', hb', base, size⟩ := first b hb
  obtain ⟨b'', hb'', base', size'⟩ := second b' hb'
  exact ⟨b'', hb'', base'.trans base, size'.trans size⟩

theorem SamePlaces.of_evolves (forward : m.Evolves [] m') : m.SamePlaces m' :=
  fun b hb => ⟨b, forward.mem_chunks hb (by simp), rfl, rfl⟩

theorem samePlaces_write (m : Memory) (a : UInt64) (bytes : List UInt8) :
    m.SamePlaces (m.write a bytes) := by
  intro b hb
  unfold write
  split
  · rename_i c offset _
    refine ⟨b.rewrite c.base offset bytes, ?_, by simp, by simp⟩
    rw [chunks_writeBlock]
    exact List.mem_map.mpr ⟨b, hb, rfl⟩
  · exact ⟨b, hb, rfl, rfl⟩

end Memory

end Ferry
