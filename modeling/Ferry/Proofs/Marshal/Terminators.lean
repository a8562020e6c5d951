import Ferry.Proofs.Marshal.Leading
import Ferry.Proofs.Marshal.Undoing

/-!
# Looking for a terminator

A terminated array is searched from its first element on for one of zeros. In a block that was made for such an array the
search ends, and it never looks past the end of the block (`Block.Terminated`): there is one element more than there are
items, and nothing is stored in it. An item that is zero ends the array before, unless items are texts, structures or arrays,
which are never null. Elements without a size all lie on the first byte, which is zero.
-/

set_option autoImplicit false

namespace Ferry

namespace Block

def elementBytes (b : Block) (t : NativeType) (i : Nat) : List UInt8 :=
  b.slice (i * t.size) t.size

def firstBlank (b : Block) (t : NativeType) (count : Nat) : Nat :=
  (List.range count).findIdx fun i => (b.elementBytes t i).all (· == 0)

/-- The search through a block ends at the `n`-th element. Each element that it looks at lies in the block, so the bytes of the
block are enough to find it, and memory shows no other one. -/
structure Terminated (b : Block) (t : NativeType) (m : Memory) (n : Nat) : Prop where
  inside : ∀ i ≤ n, i * t.size + max t.size 1 ≤ b.size
  found : ∀ fuel, n < fuel → terminator? t.size fuel (b.slice 0 b.size) = some n
  shown : m.terminator? t b.address = some n
  counted : m.terminatedLength t b.address = n

variable {b : Block} {t : NativeType} {m : Memory} {n count : Nat}

theorem all_elementBytes_iff (b : Block) (t : NativeType) (i : Nat) :
    (b.elementBytes t i).all (· == 0) = true ↔ (b.element t i).isNull = true := by
  have short : (b.elementBytes t i).length ≤ 8 := by simp [elementBytes, slice, t.size_le_word]
  exact (Slot.ofBytes_isNull_iff short).symm

theorem firstBlank_le (b : Block) (t : NativeType) (count : Nat) : b.firstBlank t count ≤ count := by
  have le := @List.findIdx_le_length Nat (fun i => (b.elementBytes t i).all (· == 0)) (List.range count)
  rwa [List.length_range] at le

theorem before_firstBlank {i : Nat} (before : i < b.firstBlank t count) : (b.elementBytes t i).all (· == 0) = false := by
  have other := List.not_of_lt_findIdx before
  rwa [List.getElem_range] at other

theorem at_firstBlank (less : b.firstBlank t count < count) :
    (b.elementBytes t (b.firstBlank t count)).all (· == 0) = true := by
  have blank := @List.findIdx_getElem Nat (fun i => (b.elementBytes t i).all (· == 0)) (List.range count)
    (by rwa [List.length_range])
  rwa [List.getElem_range] at blank

theorem firstBlank_eq_count (present : ∀ i < count, (b.element t i).isNull = false) : b.firstBlank t count = count := by
  refine Nat.le_antisymm (b.firstBlank_le t count) (Nat.le_of_not_lt fun less => ?_)
  have blank := (b.all_elementBytes_iff t _).mp (at_firstBlank less)
  rw [present _ less] at blank
  cases blank

theorem terminator?_sizeless (zero : b.byte 0 = 0) {len : Nat} (some_byte : 0 < len) {fuel : Nat} (enough : 0 < fuel) :
    terminator? 0 fuel (b.slice 0 len) = some 0 := by
  obtain ⟨fuel, rfl⟩ := Nat.exists_eq_succ_of_ne_zero (Nat.ne_of_gt enough)
  have width : max 0 1 = 1 := rfl
  have first : (b.slice 0 len).take 1 = b.slice 0 1 := b.slice_take 0 len 1 some_byte
  simp only [terminator?, width, first]
  rw [if_neg (by simp [slice]; omega), if_pos (by simp [slice, zero])]

theorem terminated (hb : b ∈ m.chunks) (room : (n + 1) * t.size ≤ b.size) (some_byte : 0 < b.size)
    (before : ∀ i < n, (b.elementBytes t i).all (· == 0) = false) (zeros : (b.elementBytes t n).all (· == 0) = true)
    (sizeless : t.size = 0 → b.byte 0 = 0) : b.Terminated t m n := by
  have reached : b.reaches b.address.toNat = true := by
    rw [Memory.toNat_address hb]
    exact b.reaches_base
  have tail : m.tail b.address = b.slice 0 b.capacity := by
    rw [Memory.tail_eq hb reached, Memory.toNat_address hb, Nat.sub_self, Nat.sub_zero]
  have within := b.size_le_capacity
  have finds : ∀ len, b.size ≤ len → ∀ fuel, n < fuel → terminator? t.size fuel (b.slice 0 len) = some n := by
    intro len large fuel enough
    rcases Nat.eq_zero_or_pos t.size with none | positive
    · have first : n = 0 := by
        rcases Nat.eq_zero_or_pos n with first | later
        · exact first
        · have other := before 0 later
          simp [elementBytes, none, slice] at other
      rw [none, first]
      exact terminator?_sizeless (sizeless none) (by omega) (by omega)
    · refine terminator?_slice b positive n 0 len fuel enough (by omega) (fun i hi => ?_) ?_
      · rw [Nat.zero_add]
        exact before i hi
      · rw [Nat.zero_add]
        exact zeros
  have shown : m.terminator? t b.address = some n := by
    unfold Memory.terminator?
    rw [tail]
    refine finds b.capacity within _ ?_
    rcases Nat.eq_zero_or_pos n with first | later
    · omega
    · have product : (n + 1) * 1 ≤ (n + 1) * t.size := by
        refine Nat.mul_le_mul_left _ (Nat.pos_of_ne_zero fun none => ?_)
        have other := before 0 later
        simp [elementBytes, none, slice] at other
      simp only [slice, List.length_map, List.length_range]
      omega
  refine ⟨fun i le => ?_, finds b.size (Nat.le_refl _), shown, by rw [Memory.terminatedLength, shown, Option.getD_some]⟩
  have product : (i + 1) * t.size ≤ (n + 1) * t.size := Nat.mul_le_mul_right _ (Nat.succ_le_succ le)
  rw [Nat.succ_mul] at product
  rcases Nat.eq_zero_or_pos t.size with none | positive
  · rw [none, Nat.mul_zero]
    exact some_byte
  · rw [Nat.max_eq_left positive]
    omega

end Block

variable {s s' : Engine} {element : Ty} {value : Value} {slot : Slot} {nullable : Bool}

/-! ## What is stored -/

/-- The items of an array that are passed as addresses of things that exist: texts, structures and arrays. -/
def Ty.isReference : Ty → Bool
  | .utf8 | .struct _ | .array _ _ => true
  | _ => false

theorem structure_of_encode {layout : Layout} (run : encode value (.struct layout) false s = (.ok slot, s')) :
    slot.address ∈ value.structures := by
  cases value with
  | boxed b =>
      by_cases same : b.layout = layout
      · have converted : encode (.boxed b) (.struct layout) false = pure (.ofAddress b.address) := by
          rw [encode_of_flat (by simp)]
          simp [Value.isNullish, encodeScalar, same]
        rw [converted] at run
        cases run
        exact List.mem_singleton_self _
      · have refused : encode (.boxed b) (.struct layout) false =
            throw (.error (mismatch (.struct layout) (.boxed b))) := by
          rw [encode_of_flat (by simp)]
          simp [Value.isNullish, encodeScalar, same]
        rw [refused] at run
        cases run
  | _ => cases run

theorem present_of_reference (reference : element.isReference = true) (nonnull : ∀ x ∈ value.structures, x ≠ 0)
    (run : encode value element false s = (.ok slot, s')) : slot.isNull = false := by
  cases element with
  | utf8 | array => exact present_of_made rfl run
  | struct layout =>
      have bound := nonnull _ (structure_of_encode run)
      simpa [Slot.isNull, Slot.address] using bound
  | _ => cases reference

theorem Ty.size_of_reference (reference : element.isReference = true) : element.native.size = 8 := by
  cases element with
  | utf8 | array | struct => rfl
  | _ => cases reference

/-- A terminated array of items is in a live block of its own. The block has room for one element more than there are items,
each element holds what its item was converted to, and there are zeros behind the last one. -/
theorem exists_block_of_encodeItems {undo : Nat → EngineM Unit} {items : List Value} {block : UInt64} {s₁ : Engine}
    (made : EngineM.allocate (ArrayLength.zeroTerminated.capacity items.length * element.native.size) s = (some block, s₁))
    (stores : encodeItems (fun item => encode item element false) undo element.native block 0 items s₁ = (.ok (), s')) :
    ∃ b ∈ s'.memory.blocks, b.address = block ∧ 0 < b.size ∧ (items.length + 1) * element.native.size ≤ b.size ∧
      (∀ i item, items[i]? = some item → ∃ slot t t', encode item element false t = (.ok slot, t') ∧
        b.element element.native i = .ofNat (slot.payload element.native)) ∧
      ∀ start n, items.length * element.native.size ≤ start → b.slice start n = List.replicate n 0 := by
  obtain ⟨b, live, rfl, -, size, fresh⟩ := allocate_block made
  have ended : (items.length + 1) * element.native.size ≤ b.size := by
    rw [size]
    exact Nat.le_max_left _ _
  have roomy : items.length * element.native.size ≤ (items.length + 1) * element.native.size :=
    Nat.mul_le_mul_right _ (Nat.le_succ _)
  have within := b.size_le_capacity
  have chunk := Memory.mem_chunks_of_live live
  obtain ⟨-, b', -, base', size', lives, held, apart⟩ := encodeItems_stores chunk (Memory.base_lt_frontier chunk)
    (Nat.le_refl _) (by rw [Nat.zero_add]; omega) stores
  refine ⟨b', lives live, by simp [Block.address, base'], by omega, by omega, fun i item there => ?_,
    fun start n behind => ?_⟩
  · obtain ⟨slot, t, t', converted, -, -, here⟩ := held i item there
    rw [Nat.zero_add] at here
    exact ⟨slot, t, t', converted, here⟩
  · obtain ⟨base, size, label, stored⟩ := b
    cases fresh
    rw [apart start n (Or.inr (by rw [Nat.zero_add]; exact behind)), Block.slice_fresh]

/-! ## The search -/

/-- The search for the terminator of an array that the engine made ends inside of its block, at the first item of zeros or
behind the last item. Texts, structures and arrays are counted in full. Null is passed without a block. -/
theorem terminated_of_encodeArray {count : Nat}
    (run : encodeArray value element .zeroTerminated nullable s = (.ok (slot, count), s')) :
    (value.isNullish = true ∧ slot = .zero ∧ count = 0 ∧ s' = s) ∨
    ∃ items b, value = .array items ∧ count = items.length ∧ b ∈ s'.memory.blocks ∧ slot = .ofAddress b.address ∧
      b.Terminated element.native s'.memory (b.firstBlank element.native count) ∧
      (element.isReference = true → (∀ x ∈ value.structures, x ≠ 0) → b.firstBlank element.native count = count) := by
  have passes := canConvert_of_encodeArray run
  rcases encodeArrayWith_cases run with ⟨items, block, s₁, filled, rfl, small, made, stores, result⟩ |
    ⟨same, ⟨null, other⟩ | ⟨e, impossible⟩⟩
  · cases filled with
    | error e => cases result
    | ok u =>
        cases result
        obtain ⟨b, live, rfl, some_byte, ended, held, zeros⟩ := exists_block_of_encodeItems made stores
        have le := b.firstBlank_le element.native items.length
        refine Or.inr ⟨items, b, rfl, rfl, live, rfl, ?_, fun reference nonnull => ?_⟩
        · refine Block.terminated (Memory.mem_chunks_of_live live) ?_ some_byte (fun i => Block.before_firstBlank) ?_ ?_
          · exact Nat.le_trans (Nat.mul_le_mul_right _ (Nat.add_le_add_right le 1)) ended
          · rcases Nat.eq_or_lt_of_le le with whole | less
            · rw [whole, Block.elementBytes, zeros _ _ (Nat.le_refl _)]
              simp
            · exact Block.at_firstBlank less
          · intro none
            have first := zeros 0 1 (by rw [none, Nat.mul_zero])
            simpa [Block.slice] using first
        · refine Block.firstBlank_eq_count fun i before => ?_
          have there := List.getElem?_eq_getElem before
          obtain ⟨slot, t, t', converted, here⟩ := held i _ there
          rw [Slot.ofNat_payload_word (Ty.size_of_reference reference)] at here
          rw [here]
          refine present_of_reference reference (fun x hx => nonnull x ?_) converted
          exact mem_structuresAll.mpr ⟨items[i], List.mem_of_getElem? there, hx⟩
  · cases null
    refine Or.inl ⟨?_, rfl, rfl, same⟩
    cases value with
    | array items => exact absurd rfl (other items)
    | undefined | null => rfl
    | _ => simp [canConvert, Value.isNullish] at passes
  · cases impossible

def corner : Layout := ⟨"Geo", "Corner", 8, 4⟩

def corners : Value := .array [.boxed ⟨corner, 0x7000, false⟩, .boxed ⟨corner, 0x7008, false⟩]

theorem terminated_of_encodeArray_corners : ∃ b s',
    encodeArray corners (.struct corner) .zeroTerminated false .initial = (.ok (.ofAddress b.address, 2), s') ∧
      b ∈ s'.memory.blocks ∧ b.Terminated .pointer s'.memory 2 := by
  have converts : (encodeArray corners (.struct corner) .zeroTerminated false .initial).1.isOk = true := by decide +kernel
  obtain ⟨⟨slot, count⟩, s', run⟩ := exists_ok converts
  rcases terminated_of_encodeArray run with ⟨null, -⟩ | ⟨items, b, given, rfl, live, rfl, ends, whole⟩
  · cases null
  · cases given
    have nonnull : ∀ x ∈ corners.structures, x ≠ 0 := by simp [corners, Value.structures, Value.structuresAll]
    rw [whole rfl nonnull] at ends
    exact ⟨b, s', run, live, ends⟩

end Ferry
