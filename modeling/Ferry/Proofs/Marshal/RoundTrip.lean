import Ferry.Proofs.Engine.Sparing
import Ferry.Proofs.Marshal.ReadingBack
import Mathlib.Data.List.TakeWhile

/-!
# There and back

A value that is converted to a native one and read back comes back in its one form. For arrays this is an induction over
the type: each item has blocks of its own, all of them made after the block of the array, so that storing the next item
leaves what was stored before as it was (`encodeItems_stores`). What is read then is what was stored, up to the count that
is known or that the type says, or up to the terminator (`roundTrip_of_marshals`).
-/

set_option autoImplicit false

namespace Ferry

variable {s s' : Engine} {type element : Ty} {length : ArrayLength} {value : Value} {slot : Slot} {nullable : Bool}

theorem Ty.size_pos (faithful : type.isFaithful = true) : 0 < type.native.size := by
  cases type with
  | void | float | struct | callback | destroyNotify => cases faithful
  | _ => exact Nat.succ_pos _

theorem present_of_encode (faithful : type.isFaithful = true) (run : encode value type false s = (.ok slot, s')) :
    value.isNullish = false := by
  have passes := canConvert_of_encode type run
  cases null : value.isNullish with
  | false => rfl
  | true =>
      cases type with
      | array element length =>
          simp [canConvert, null] at passes
      | void => cases faithful
      | _ =>
          rw [canConvert_nullish (by simp) null] at passes
          simp [Ty.isVoid] at passes

/-! ## Storing the items -/

/-- What storing items does to the block of an array: each element holds what its item was converted to on the way, and the
bytes before the first of them and behind the last are as they were. So are all blocks from `floor` on. The block of the array
lies below, and what is made for an item lies above. -/
theorem encodeItems_stores {undo : Nat → EngineM Unit} {floor : Nat} {items : List Value} {b : Block} {index : Nat}
    (hb : b ∈ s.memory.chunks) (below : b.base < floor) (above : floor ≤ s.memory.frontier)
    (room : (index + items.length) * element.native.size ≤ b.capacity)
    (run : encodeItems (fun item => encode item element false) undo element.native b.address index items s =
      (.ok (), s')) :
    s.memory.KeepsFrom floor s'.memory ∧ ∃ b' ∈ s'.memory.chunks, b'.base = b.base ∧ b'.size = b.size ∧
      (b ∈ s.memory.blocks → b' ∈ s'.memory.blocks) ∧
      (∀ i item, items[i]? = some item → ∃ slot t t', encode item element false t = (.ok slot, t') ∧
        floor ≤ t.memory.frontier ∧ t'.memory.KeepsFrom floor s'.memory ∧
        b'.element element.native (index + i) = .ofNat (slot.payload element.native)) ∧
      ∀ start n, start + n ≤ index * element.native.size ∨ (index + items.length) * element.native.size ≤ start →
        b'.slice start n = b.slice start n := by
  induction items generalizing s index b with
  | nil =>
      cases run
      exact ⟨.refl floor _, b, hb, rfl, rfl, id, by simp, fun _ _ _ => rfl⟩
  | cons item rest ih =>
      have length : index + 1 + rest.length = index + (item :: rest).length := by
        simp only [List.length_cons]
        omega
      have next : (index + 1) * element.native.size ≤ b.capacity :=
        Nat.le_trans (Nat.mul_le_mul_right _ (by omega)) room
      have split : (index + 1) * element.native.size = index * element.native.size + element.native.size :=
        Nat.succ_mul _ _
      have last : (index + 1) * element.native.size ≤ (index + 1 + rest.length) * element.native.size :=
        Nat.mul_le_mul_right _ (Nat.le_add_right _ _)
      rcases encodeItems_cons_cases run with ⟨slot, s₁, converted, later⟩ | ⟨e, s₁, -, -, impossible⟩
      · have forward := encode_evolves element converted
        have hb₁ := forward.mem_chunks hb (by simp)
        obtain ⟨b₁, hb₂, base, size, -, stored, apart⟩ := Memory.exists_chunk_store hb₁ element.native
          (by omega) (Block.element_inside next) slot
        have address : b₁.address = b.address := by simp [Block.address, base]
        have kept : s₁.memory.KeepsFrom floor
            (s₁.memory.store element.native (elementAddress b.address element.native index) slot) :=
          .of_write hb₁ below (Memory.reaches_address_add hb₁ (Block.element_inside next)) _
        have higher : floor ≤
            (s₁.memory.store element.native (elementAddress b.address element.native index) slot).frontier := by
          rw [Memory.frontier_store]
          exact Nat.le_trans above forward.frontier_le
        have lives : b ∈ s.memory.blocks →
            b₁ ∈ (s₁.memory.store element.native (elementAddress b.address element.native index) slot).blocks := by
          intro live
          obtain ⟨c, hc, same⟩ := Memory.live_write ⟨b, forward.mem live (by simp), rfl⟩
            (elementAddress b.address element.native index) (slot.toBytes element.native)
          have equal := Memory.eq_of_address (Memory.mem_chunks_of_live hc) hb₂ (same.trans address.symm)
          exact equal ▸ hc
        rw [← address] at later
        obtain ⟨kept₂, b₂, hb₃, base₂, size₂, lives₂, held, apart₂⟩ := ih (by rw [address]; exact hb₂)
          (by rw [base]; exact below) (by rw [address]; exact higher)
          (by rw [length, Block.capacity_congr size]; exact room) later
        rw [address] at kept₂ lives₂
        refine ⟨(Memory.KeepsFrom.of_evolves forward).trans (kept.trans kept₂), b₂, hb₃, base₂.trans base,
          size₂.trans size, fun live => lives₂ (lives live), ?_, ?_⟩
        · intro i v found
          cases i with
          | zero =>
              cases found
              refine ⟨slot, s, s₁, converted, above, kept.trans kept₂, ?_⟩
              rw [Nat.add_zero, Block.element, apart₂ _ _ (Or.inl (by omega))]
              exact stored
          | succ i =>
              have place : index + (i + 1) = index + 1 + i := by omega
              rw [place]
              exact held i v found
        · intro start n outside
          rw [← length] at outside
          rw [apart₂ start n (by omega), apart start n (by omega)]
      · cases impossible

theorem encodeItems_holds {undo : Nat → EngineM Unit} {floor : Nat} {items : List Value}
    (each : ∀ item ∈ items, ∀ slot s s', encode item element false s = (.ok slot, s') →
      slot.Holds element item s.memory.frontier s'.memory)
    {b : Block} {index : Nat} (hb : b ∈ s.memory.chunks) (below : b.base < floor) (above : floor ≤ s.memory.frontier)
    (room : (index + items.length) * element.native.size ≤ b.capacity)
    (run : encodeItems (fun item => encode item element false) undo element.native b.address index items s =
      (.ok (), s')) :
    s.memory.KeepsFrom floor s'.memory ∧ ∃ b' ∈ s'.memory.chunks, b'.base = b.base ∧ b'.size = b.size ∧
      (∀ i item, items[i]? = some item →
        (b'.element element.native (index + i)).Holds element item floor s'.memory) ∧
      ∀ j, j < index ∨ index + items.length ≤ j → b'.element element.native j = b.element element.native j := by
  obtain ⟨kept, b', hb', base, size, -, held, apart⟩ := encodeItems_stores hb below above room run
  refine ⟨kept, b', hb', base, size, fun i item there => ?_, fun j outside => ?_⟩
  · obtain ⟨slot, t, t', converted, higher, later, here⟩ := held i item there
    rw [here]
    exact (((each item (List.mem_of_getElem? there) slot t t' converted).lower higher).later later).stored
  · rw [Block.element, Block.element, apart]
    rcases outside with before | behind
    · left
      calc j * element.native.size + element.native.size = (j + 1) * element.native.size := (Nat.succ_mul j _).symm
        _ ≤ index * element.native.size := Nat.mul_le_mul_right _ before
    · exact Or.inr (Nat.mul_le_mul_right _ behind)

/-! ## Reading the items -/

theorem decodeItems_succ {decodeItem : Slot → MarshalM Value} {t : NativeType} {base : UInt64} {index count : Nat}
    {found : List Value} {item : Value}
    (converted : decodeItem (s.memory.load t (elementAddress base t index)) s = (.ok item, s')) :
    decodeItems decodeItem t base index (count + 1) found s =
      decodeItems decodeItem t base (index + 1) count (item :: found) s' := by
  have caught : tryCatch (decodeItem (s.memory.load t (elementAddress base t index))) (fun e => do
      Value.releaseAll found.reverse
      throw e : MarshalError → MarshalM Value) s = (.ok item, s') := by
    rw [EngineM.tryCatch_eq, converted]
  have turn : decodeItems decodeItem t base index (count + 1) found s =
      (tryCatch (decodeItem (s.memory.load t (elementAddress base t index))) (fun e => do
        Value.releaseAll found.reverse
        throw e : MarshalError → MarshalM Value) >>= fun item =>
          decodeItems decodeItem t base (index + 1) count (item :: found)) s := by
    rw [decodeItems]
    rfl
  rw [turn, EngineM.failing_bind, caught]

theorem decodeItems_holds {m : Memory} {floor : Nat} {b : Block} {t : Engine} (hb : b ∈ t.memory.chunks)
    (keeps : m.KeepsFrom floor t.memory) (transfer : Transfer) {items : List Value} {index : Nat}
    (room : (index + items.length) * element.native.size ≤ b.capacity)
    (held : ∀ i item, items[i]? = some item → (b.element element.native (index + i)).Holds element item floor m)
    (found : List Value) :
    decodeItems (fun slot => fromNative element slot transfer) element.native b.address index items.length found t =
      (.ok (found.reverse ++ items.map Value.canonical), t) := by
  induction items generalizing index found with
  | nil =>
      rw [List.map_nil, List.append_nil]
      rfl
  | cons item rest ih =>
      have next : (index + 1) * element.native.size ≤ b.capacity := by
        refine Nat.le_trans (Nat.mul_le_mul_right _ ?_) room
        simp only [List.length_cons]
        omega
      have length : index + 1 + rest.length = index + (item :: rest).length := by
        simp only [List.length_cons]
        omega
      have converted : fromNative element (t.memory.load element.native (elementAddress b.address element.native index))
          transfer t = (.ok item.canonical, t) := by
        rw [Memory.load_element hb element.native (Block.element_inside next)]
        exact (held 0 item rfl).reads t keeps transfer
      have others : ∀ i v, rest[i]? = some v → (b.element element.native (index + 1 + i)).Holds element v floor m := by
        intro i v there
        have place : index + 1 + i = index + (i + 1) := by omega
        rw [place]
        exact held (i + 1) v there
      rw [List.length_cons, decodeItems_succ converted, ih (by rw [length]; exact room) others, List.reverse_cons,
        List.append_assoc, List.map_cons, List.singleton_append]

theorem decodeArrayWith_of_count {decodeItem : Slot → MarshalM Value} {known : Option Nat} {count : Nat}
    {items : List Value} (present : slot.isNull = false)
    (counted : s.memory.arrayLength? element length slot.address known = some count)
    (decoded : decodeItems decodeItem element.native slot.address 0 count [] s = (.ok items, s')) :
    decodeArrayWith decodeItem element length slot known s = (.ok (.array items), s') := by
  unfold decodeArrayWith
  rw [present, if_neg Bool.false_ne_true, EngineM.failing_get, counted]
  simp only
  rw [EngineM.failing_bind, decoded]
  rfl

/-! ## Arrays -/

/-- A block holds an array: its first elements hold the items, and all elements behind them are zero. -/
structure Block.HoldsArray (b : Block) (element : Ty) (length : ArrayLength) (items : List Value) (floor : Nat)
    (m : Memory) : Prop where
  mem : b ∈ m.chunks
  above : floor ≤ b.base
  room : items.length * element.native.size ≤ b.capacity
  ended : length = .zeroTerminated → (items.length + 1) * element.native.size ≤ b.capacity
  holds : ∀ i item, items[i]? = some item → (b.element element.native i).Holds element item floor m
  behind : ∀ j, items.length ≤ j → b.element element.native j = .zero

theorem Block.element_of_fresh {b : Block} (fresh : b.stored = #[]) (t : NativeType) (i : Nat) :
    b.element t i = .zero := by
  obtain ⟨base, size, label, stored⟩ := b
  cases fresh
  exact Block.element_fresh base size label t i

theorem Block.element_isNull_iff (b : Block) (t : NativeType) (i : Nat) :
    (b.element t i).isNull = true ↔ (b.element t i).payload t = 0 := by
  have width : (b.slice (i * t.size) t.size).length = t.size := by simp [Block.slice]
  have low := LittleEndian.decode_lt (b.slice (i * t.size) t.size)
  rw [width] at low
  have bits : (b.element t i).bits.toNat = LittleEndian.decode (b.slice (i * t.size) t.size) :=
    Slot.toNat_ofBytes (by rw [width]; exact t.size_le_word)
  rw [Slot.payload, bits, Nat.mod_eq_of_lt low, ← bits, Slot.isNull, beq_iff_eq, ← UInt64.toNat_inj]
  rfl

namespace Block.HoldsArray

variable {b : Block} {items : List Value} {floor : Nat} {m : Memory} {t : Engine} {known : Option Nat}

theorem stays (holds : b.HoldsArray element length items floor m) (keeps : m.KeepsFrom floor t.memory) :
    b ∈ t.memory.chunks :=
  keeps b holds.mem holds.above

theorem read (holds : b.HoldsArray element length items floor m) (keeps : m.KeepsFrom floor t.memory)
    (transfer : Transfer) {k : Nat} (le : k ≤ items.length)
    (counted : t.memory.arrayLength? element length b.address known = some k) :
    arrayFromNative element length (.ofAddress b.address) known transfer t =
      (.ok (.array (Value.canonicalAll (items.take k))), t) := by
  have count : (items.take k).length = k := List.length_take_of_le le
  have room : (0 + (items.take k).length) * element.native.size ≤ b.capacity := by
    rw [Nat.zero_add, count]
    exact Nat.le_trans (Nat.mul_le_mul_right _ le) holds.room
  have held : ∀ i item, (items.take k)[i]? = some item →
      (b.element element.native (0 + i)).Holds element item floor m := by
    intro i item there
    rw [List.getElem?_take] at there
    split at there
    · rw [Nat.zero_add]
      exact holds.holds i item there
    · cases there
  have decoded := decodeItems_holds (holds.stays keeps) keeps transfer.ofElement room held []
  rw [count, List.reverse_nil, List.nil_append, ← canonicalAll_eq] at decoded
  exact decodeArrayWith_of_count (isNull_ofAddress holds.mem) counted decoded

theorem terminatedLength (holds : b.HoldsArray element .zeroTerminated items floor m) (faithful : element.isFaithful = true)
    (keeps : m.KeepsFrom floor t.memory) :
    t.memory.terminatedLength element.native b.address = (items.takeWhile fun v => !v.isBlank).length := by
  have le : items.findIdx Value.isBlank ≤ items.length := List.findIdx_le_length
  have prefix_length : (items.takeWhile fun v => !v.isBlank).length = items.findIdx Value.isBlank := by
    rw [List.takeWhile_eq_take_findIdx_not, List.length_take]
    simp only [Bool.not_not]
    exact Nat.min_eq_left le
  have null : ∀ i item, items[i]? = some item →
      ((b.element element.native i).isNull = true ↔ item.isBlank = true) := fun i item there => by
    rw [b.element_isNull_iff]
    exact (holds.holds i item there).blank
  rw [prefix_length]
  have room := Nat.le_trans (Nat.mul_le_mul_right _ (Nat.succ_le_succ le)) (holds.ended rfl)
  refine terminatedLength_filled (Ty.size_pos faithful) (holds.stays keeps) room ?_ ?_
  · intro j before
    have inside : j < items.length := Nat.lt_of_lt_of_le before le
    have other := List.not_of_lt_findIdx before
    rw [← Bool.not_eq_true, null j _ (List.getElem?_eq_getElem inside)]
    exact Bool.eq_false_iff.mp other
  · rcases Nat.eq_or_lt_of_le le with whole | inside
    · rw [holds.behind _ (Nat.le_of_eq whole.symm)]
      rfl
    · rw [null _ _ (List.getElem?_eq_getElem inside)]
      exact List.findIdx_getElem

end Block.HoldsArray

theorem holdsArray_of_encodeArray {count : Nat} (present : value.isNullish = false)
    (each : ∀ items, value = .array items → ∀ item ∈ items, ∀ slot s s', encode item element false s = (.ok slot, s') →
      slot.Holds element item s.memory.frontier s'.memory)
    (run : encodeArray value element length nullable s = (.ok (slot, count), s')) :
    ∃ (items : List Value) (b : Block), value = .array items ∧ slot = .ofAddress b.address ∧ count = items.length ∧
      b.HoldsArray element length items s.memory.frontier s'.memory := by
  have passes := canConvert_of_encodeArray run
  rcases encodeArrayWith_cases run with ⟨items, block, s₁, filled, rfl, small, made, stores, result⟩ |
    ⟨-, ⟨-, other⟩ | ⟨e, impossible⟩⟩
  · cases filled with
    | error e => cases result
    | ok u =>
        cases result
        have roomy := Nat.mul_le_mul_right element.native.size (length.le_capacity items.length)
        obtain ⟨b, hb, rfl, base, size, fresh⟩ := allocate_block made
        have chunk := Memory.mem_chunks_of_live hb
        have whole : length.capacity items.length * element.native.size ≤ b.capacity := by
          have := b.size_le_capacity
          omega
        obtain ⟨-, b', hb', base', size', held, others⟩ := encodeItems_holds (each items rfl) chunk
          (Memory.base_lt_frontier chunk) (Nat.le_refl _) (by rw [Nat.zero_add]; exact Nat.le_trans roomy whole) stores
        have forward := (allocate_evolves made).1.frontier_le
        have capacity := Block.capacity_congr size'
        refine ⟨items, b', rfl, by simp [Block.address, base'], rfl, hb', by omega, by omega, fun terminated => ?_, ?_, ?_⟩
        · rw [terminated, ArrayLength.capacity] at whole
          omega
        · intro i item there
          have holds := held i item there
          rw [Nat.zero_add] at holds
          exact holds.lower forward
        · intro j behind
          rw [others j (Or.inr (by rw [Nat.zero_add]; exact behind)), Block.element_of_fresh fresh]
  · cases value with
    | array items => exact absurd rfl (other items)
    | undefined | null => cases present
    | _ => simp [canConvert, Value.isNullish] at passes
  · cases impossible

theorem arrayLength?_of_suits {items : List Value} {b : Block} {floor : Nat} {m : Memory} {t : Engine}
    (holds : b.HoldsArray element length items floor m) (faithful : (Ty.array element length).isFaithful = true)
    (suits : (Value.array items).suits (.array element length) = true) (keeps : m.KeepsFrom floor t.memory) :
    t.memory.arrayLength? element length b.address none = some items.length := by
  simp only [Ty.isFaithful, Bool.and_eq_true] at faithful
  simp only [Value.suits, Bool.and_eq_true] at suits
  cases length with
  | parameter index => cases faithful.2
  | fixed n =>
      have same : items.length = n := by simpa using suits.2
      rw [Memory.arrayLength?, same]
  | zeroTerminated =>
      have whole : (items.takeWhile fun v => !v.isBlank) = items :=
        List.takeWhile_eq_self_iff.mpr (List.all_eq_true.mp suits.2)
      rw [Memory.arrayLength?, holds.terminatedLength faithful.1 keeps, whole]

theorem holds_of_encode (type : Ty) {value : Value} {nullable : Bool} {slot : Slot} {s s' : Engine}
    (faithful : type.isFaithful = true) (suits : value.suits type = true) (present : value.isNullish = false)
    (run : encode value type nullable s = (.ok slot, s')) : slot.Holds type value s.memory.frontier s'.memory := by
  cases shape : type with
  | array element length =>
      subst shape
      rw [encode] at run
      obtain ⟨⟨made, count⟩, s₁, run, last⟩ := EngineM.failing_bind_ok run
      cases last
      have inner : element.isFaithful = true := by
        rw [Ty.isFaithful, Bool.and_eq_true] at faithful
        exact faithful.1
      obtain ⟨items, b, rfl, rfl, -, holds⟩ := holdsArray_of_encodeArray present
        (by
          rintro items rfl item listed slot s s' converted
          simp only [Value.suits, Bool.and_eq_true] at suits
          exact holds_of_encode element inner (List.all_eq_true.mp suits.1 item listed)
            (present_of_encode inner converted) converted) run
      constructor
      · intro t keeps transfer
        have read := holds.read keeps transfer (Nat.le_refl _) (arrayLength?_of_suits holds faithful suits keeps)
        rw [List.take_length] at read
        exact read
      · rw [← Slot.isNull_iff_payload rfl, isNull_ofAddress holds.mem]
        rfl
  | _ =>
      rw [← shape]
      exact holds_of_encode_flat (by simp [shape]) faithful suits present run
termination_by type
decreasing_by simp [shape]; omega

/-! ## The round trip -/

/-- As a whole, an array may have its length from anywhere. -/
def Ty.Faithful : Ty → Prop
  | .array element _ => element.isFaithful = true
  | type => type.isFaithful = true

/-- As a whole, an array may have any number of elements, blank ones among them. -/
def Value.Suits (value : Value) : Ty → Prop
  | .array element _ => ∀ items, value = .array items → ∀ item ∈ items, item.suits element = true
  | type => value.suits type = true

/-- The conversions to native memory that give a slot: of a value of any type, and of an array with its element
count. -/
inductive Marshals (value : Value) (nullable : Bool) (s : Engine) : Ty → Slot → Nat → Engine → Prop
  | whole (type : Ty) (slot : Slot) (s' : Engine) (run : toNative value type nullable s = (.ok slot, s')) :
    Marshals value nullable s type slot value.elementCount s'
  | array (element : Ty) (length : ArrayLength) (slot : Slot) (count : Nat) (s' : Engine)
    (run : encodeArray value element length nullable s = (.ok (slot, count), s')) :
    Marshals value nullable s (.array element length) slot count s'

def readBack : Ty → Slot → (count : Nat) → Transfer → MarshalM Value
  | .array element length, slot, count, transfer => arrayFromNative element length slot (some count) transfer
  | type, slot, _, transfer => fromNative type slot transfer

theorem Marshals.encodes {count : Nat} (converted : Marshals value nullable s type slot count s')
    (flat : ∀ element length, type ≠ .array element length) : encode value type nullable s = (.ok slot, s') := by
  cases converted with
  | whole type slot s' run => exact toNative_ok run
  | array element length => exact absurd rfl (flat element length)

theorem Marshals.encodesArray {count : Nat} (converted : Marshals value nullable s (.array element length) slot count s') :
    encodeArray value element length nullable s = (.ok (slot, count), s') := by
  cases converted with
  | array _ _ slot count s' run => exact run
  | whole _ slot s' run =>
      have encoded := toNative_ok run
      rw [encode] at encoded
      obtain ⟨⟨made, count⟩, s₁, run, last⟩ := EngineM.failing_bind_ok encoded
      cases last
      rw [elementCount_of_encodeArray run]
      exact run

theorem readBack_of_encode {count : Nat} (flat : ∀ element length, type ≠ .array element length)
    (faithful : type.Faithful) (suits : value.Suits type) (present : value.isNullish = false)
    (run : encode value type nullable s = (.ok slot, s')) (transfer : Transfer) :
    readBack type slot count transfer s' = (.ok value.canonical, s') := by
  have keeps := Memory.KeepsFrom.refl s.memory.frontier s'.memory
  cases type with
  | array element length => exact absurd rfl (flat element length)
  | _ => exact (holds_of_encode_flat flat faithful suits present run).reads s' keeps transfer

theorem readBack_of_encodeArray {count : Nat} (faithful : element.isFaithful = true)
    (suits : value.Suits (.array element length)) (present : value.isNullish = false)
    (run : encodeArray value element length nullable s = (.ok (slot, count), s'))
    (transfer : Transfer) :
    readBack (.array element length) slot count transfer s' = (.ok value.canonical, s') ∧
      ∀ items, length = .zeroTerminated → value = .array items →
        fromNative (.array element length) slot transfer s' =
          (.ok (Value.array (items.takeWhile fun v => !v.isBlank)).canonical, s') := by
  obtain ⟨items, b, rfl, rfl, rfl, holds⟩ := holdsArray_of_encodeArray present
    (fun items same item listed slot s s' converted =>
      holds_of_encode element faithful (suits items same item listed) (present_of_encode faithful converted) converted) run
  have keeps := Memory.KeepsFrom.refl s.memory.frontier s'.memory
  constructor
  · have read := @Block.HoldsArray.read element length b items _ _ s' (some items.length) holds keeps transfer
      items.length (Nat.le_refl _) rfl
    rw [List.take_length] at read
    exact read
  · rintro items rfl same
    cases same
    have shorter : (items.takeWhile fun v => !v.isBlank).length ≤ items.length :=
      (List.takeWhile_prefix _).length_le
    have counted : s'.memory.arrayLength? element .zeroTerminated b.address none =
        some (items.takeWhile fun v => !v.isBlank).length := by
      rw [Memory.arrayLength?, holds.terminatedLength faithful keeps]
    have read := holds.read keeps transfer shorter counted
    rw [← List.prefix_iff_eq_take.mp (List.takeWhile_prefix _)] at read
    exact read

/-- What is converted to a native value comes back when it is read: a value of a faithful type in its one form, and an
array with its element count item by item. Without its count a terminated array comes back up to its first blank
item. -/
theorem roundTrip_of_marshals {count : Nat} (faithful : type.Faithful) (suits : value.Suits type)
    (present : value.isNullish = false)
    (converted : Marshals value nullable s type slot count s') (transfer : Transfer) :
    readBack type slot count transfer s' = (.ok value.canonical, s') ∧
      ∀ element items, type = .array element .zeroTerminated → value = .array items →
        fromNative type slot transfer s' =
          (.ok (Value.array (items.takeWhile fun v => !v.isBlank)).canonical, s') := by
  cases shape : type with
  | array element length =>
      subst shape
      obtain ⟨back, terminated⟩ := readBack_of_encodeArray faithful suits present converted.encodesArray transfer
      refine ⟨back, fun element' items same given => ?_⟩
      cases same
      exact terminated items rfl given
  | _ =>
      have flat : ∀ element length, type ≠ .array element length := by simp [shape]
      rw [← shape]
      exact ⟨readBack_of_encode flat faithful suits present (converted.encodes flat) transfer,
        fun element items same => absurd same (flat element _)⟩

def rows : Value := .array [.array [.string "né", .string ""], .array []]

theorem roundTrip_of_marshals_rows : ∃ slot count s',
    encodeArray rows (.array .utf8 .zeroTerminated) .zeroTerminated false .initial = (.ok (slot, count), s') ∧
    arrayFromNative (.array .utf8 .zeroTerminated) .zeroTerminated slot (some count) .nothing s' = (.ok rows, s') ∧
    fromNative (.array (.array .utf8 .zeroTerminated) .zeroTerminated) slot .nothing s' = (.ok rows, s') := by
  have converts : (encodeArray rows (.array .utf8 .zeroTerminated) .zeroTerminated false .initial).1.isOk = true := by
    decide +kernel
  obtain ⟨⟨slot, count⟩, s', run⟩ := exists_ok converts
  have suits : rows.Suits (.array (.array .utf8 .zeroTerminated) .zeroTerminated) := by
    rintro items same item listed
    cases same
    rcases List.mem_pair.mp listed with rfl | rfl <;> rfl
  have converted : Marshals rows false .initial (.array (.array .utf8 .zeroTerminated) .zeroTerminated) slot count s' :=
    .array _ _ slot count s' run
  have faithful : (Ty.array (.array .utf8 .zeroTerminated) .zeroTerminated).Faithful := rfl
  obtain ⟨back, terminated⟩ := roundTrip_of_marshals faithful suits rfl converted .nothing
  exact ⟨slot, count, s', run, back, terminated _ _ rfl rfl⟩

end Ferry
