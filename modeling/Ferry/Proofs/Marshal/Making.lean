import Mathlib.Data.List.Perm.Basic
import Ferry.Proofs.Marshal.Conversions
import Ferry.Proofs.Marshal.Parts
import Ferry.Proofs.Native.Integers

/-!
# What a conversion makes

A conversion to a native value gains the blocks that the value consists of, and a conversion that fails loses all
that it gained. `Memory.Owns` says that this stays so whatever else happens in memory: as long as arrays of text
show the pointers that were stored in them, releasing the value gives up just these blocks.
-/

set_option autoImplicit false

namespace Ferry

/-- An array of pointers that stayed where it was, with the pointers in it. -/
def Block.SamePointers (b b' : Block) : Prop :=
  b'.base = b.base ∧ b'.size = b.size ∧
    ∀ i, (i + 1) * 8 ≤ b.size → b'.element .string i = b.element .string i

/-- The pointers at the listed addresses are as they were. -/
def Memory.Shows (m : Memory) (pointers : List UInt64) (m' : Memory) : Prop :=
  ∀ b ∈ m.chunks, b.address ∈ pointers → ∃ b' ∈ m'.chunks, b.SamePointers b'

/-- As long as the listed pointers are as they are now, `reads` finds just the blocks of `L`. -/
def Memory.Owns (m : Memory) (pointers : List UInt64) (reads : Memory → List UInt64) (L : List UInt64) : Prop :=
  ∀ m' : Memory, m.Shows pointers m' → (reads m').Perm L

theorem Block.SamePointers.refl (b : Block) : b.SamePointers b :=
  ⟨rfl, rfl, fun _ _ => rfl⟩

theorem Block.SamePointers.trans {b b' b'' : Block} (first : b.SamePointers b') (second : b'.SamePointers b'') :
    b.SamePointers b'' := by
  obtain ⟨base, size, same⟩ := first
  obtain ⟨base', size', same'⟩ := second
  refine ⟨base'.trans base, size'.trans size, fun i room => ?_⟩
  rw [same' i (by rw [size]; exact room), same i room]

namespace Memory

variable {m m' m'' : Memory} {pointers : List UInt64} {reads : Memory → List UInt64} {L : List UInt64}

theorem Shows.of_chunks (kept : ∀ b ∈ m.chunks, b.address ∈ pointers → b ∈ m'.chunks) : m.Shows pointers m' :=
  fun b hb listed => ⟨b, kept b hb listed, .refl b⟩

theorem Shows.trans (first : m.Shows pointers m') (second : m'.Shows pointers m'') : m.Shows pointers m'' := by
  intro b hb listed
  obtain ⟨b', hb', same⟩ := first b hb listed
  have address : b'.address = b.address := by simp [Block.address, same.1]
  obtain ⟨b'', hb'', same'⟩ := second b' hb' (by rw [address]; exact listed)
  exact ⟨b'', hb'', same.trans same'⟩

theorem Owns.later (h : m.Owns pointers reads L) (shown : m.Shows pointers m') : m'.Owns pointers reads L :=
  fun m'' later => h m'' (shown.trans later)

theorem Owns.now (h : m.Owns pointers reads L) : (reads m).Perm L :=
  h m (.of_chunks fun _ hb _ => hb)

end Memory

variable {s s' : Engine} {element type : Ty} {length : ArrayLength} {nullable : Bool} {value : Value}

/-! ## Single values -/

theorem encodeText_moves {text : String} {r : Except (Failure MarshalError) Slot} (run : encodeText text s = (r, s')) :
    (∃ block, r = .ok (.ofAddress block) ∧ s.Moves [.block block] [] s' ∧ s.memory.Evolves [] s'.memory ∧
      s'.memory.Live block) ∨ (∃ e, r = .error e) ∧ s' = s := by
  rcases encodeText_cases run with ⟨block, s₁, made, rfl, rfl⟩ | ⟨same, refused⟩
  · left
    have moves := EngineM.allocate_moves made
    obtain ⟨forward, base⟩ := allocate_evolves made
    obtain ⟨b, hb, address, -⟩ := allocate_block made
    refine ⟨block, rfl, ?_, forward.write_behind (Nat.le_of_eq base.symm) _, ?_⟩
    · exact moves.quiet (t := []) rfl rfl rfl (Nat.le_of_eq (by simp)) rfl rfl rfl
    · have reached : b.reaches block.toNat = true := by
        rw [← address, Memory.toNat_address (Memory.mem_chunks_of_live hb)]
        exact b.reaches_base
      exact (Memory.write_evolves (Memory.mem_chunks_of_live hb) reached _).live ⟨b, hb, address⟩
  · exact Or.inr ⟨refused, same⟩

theorem encode_flat_moves {slot : Slot} (flat : type.IsFlat) (run : encode value type nullable s = (.ok slot, s')) :
    s.Moves ((type.owned slot).map .block) [] s' ∧ s.memory.Evolves [] s'.memory ∧
      (type = .utf8 → nullable = false → slot.isNull = false) := by
  rcases encode_flat_cases flat run with ⟨text, rfl, copied⟩ | ⟨rfl, other⟩
  · rcases encodeText_moves copied with ⟨block, same, moves, forward, live⟩ | ⟨⟨e, impossible⟩, -⟩
    · cases same
      have present : (Slot.ofAddress block).isNull = false := by
        have nonzero := live.ne_zero
        simpa [Slot.isNull, Slot.ofAddress] using nonzero
      have owned : Ty.utf8.owned (.ofAddress block) = [block] := by
        simp only [Ty.owned, present]
        rfl
      exact ⟨by rw [owned]; exact moves, forward, fun _ _ => present⟩
    · cases impossible
  · have null : type = .utf8 → slot = .zero ∧ nullable = true := fun text => by
      rcases other text with ⟨zero, admitted⟩ | ⟨e, impossible⟩
      · cases zero
        exact ⟨rfl, admitted⟩
      · cases impossible
    have owned : type.owned slot = [] := by
      by_cases text : type = .utf8
      · rw [(null text).1]
        exact owned_zero type
      · exact owned_of_not_text text slot
    refine ⟨by rw [owned]; exact .refl _, .refl [] _, fun text strict => ?_⟩
    have admitted := (null text).2
    rw [strict] at admitted
    cases admitted

theorem encode_flat_refused {e : Failure MarshalError} (flat : type.IsFlat)
    (run : encode value type nullable s = (.error e, s')) : s' = s := by
  rcases encode_flat_cases flat run with ⟨text, rfl, copied⟩ | ⟨rfl, -⟩
  · rcases encodeText_moves copied with ⟨block, impossible, -⟩ | ⟨-, rfl⟩
    · cases impossible
    · rfl
  · rfl

/-! ## The items of an array -/

/-- The text in the first elements of an array that fills the block. -/
def Block.texts (b : Block) (element : Ty) (n : Nat) : List UInt64 :=
  (List.range n).flatMap fun i => element.owned (b.element element.native i)

theorem Block.texts_succ (b : Block) (element : Ty) (n : Nat) :
    b.texts element (n + 1) = b.texts element n ++ element.owned (b.element element.native n) := by
  simp [texts, List.range_succ]

theorem owned_stored (element : Ty) (x : Slot) :
    element.owned (.ofNat (x.payload element.native)) = element.owned x := by
  by_cases text : element = .utf8
  · subst text
    rw [Slot.ofNat_payload_word rfl]
  · rw [owned_of_not_text text, owned_of_not_text text]

/-- What a block holds after the elements from `i` up to `n` were stored, whose text is `made`. -/
structure Block.Filled (b b' : Block) (element : Ty) (i n : Nat) (made : List UInt64) : Prop where
  base : b'.base = b.base
  size : b'.size = b.size
  texts : b'.texts element n = b.texts element i ++ made
  early : ∀ j, j < i → b'.element element.native j = b.element element.native j
  behind : ∀ j, n ≤ j → b'.element element.native j = b.element element.native j
  present : element = .utf8 → ∀ j, i ≤ j → j < n → (b'.element element.native j).isNull = false

theorem Block.Filled.refl (b : Block) (element : Ty) (i : Nat) : b.Filled b element i i [] :=
  ⟨rfl, rfl, by simp, fun _ _ => rfl, fun _ _ => rfl, fun _ j low high => by omega⟩

theorem Block.Filled.trans {b b' b'' : Block} {i k n : Nat} {made more : List UInt64}
    (first : b.Filled b' element i k made) (second : b'.Filled b'' element k n more) (before : i ≤ k)
    (behind : k ≤ n) : b.Filled b'' element i n (made ++ more) where
  base := second.base.trans first.base
  size := second.size.trans first.size
  texts := by rw [second.texts, first.texts, List.append_assoc]
  early j low := by rw [second.early j (by omega), first.early j low]
  behind j high := by rw [second.behind j high, first.behind j (by omega)]
  present text j low high := by
    by_cases mid : j < k
    · rw [second.early j mid]
      exact first.present text j low mid
    · exact second.present text j (by omega) high

theorem exists_filled_one {m : Memory} {b : Block} {i : Nat} (hb : b ∈ m.chunks)
    (room : (i + 1) * element.native.size ≤ b.capacity) (x : Slot) (present : element = .utf8 → x.isNull = false) :
    ∃ b' ∈ (m.store element.native (elementAddress b.address element.native i) x).chunks,
      b.Filled b' element i (i + 1) (element.owned x) := by
  obtain ⟨b', hb', base, size, -, stored, others⟩ := Memory.exists_element_store hb room x
  have early : ∀ j, j < i → b'.element element.native j = b.element element.native j := fun j before =>
    others j (Nat.ne_of_lt before)
  have late : ∀ j, i + 1 ≤ j → b'.element element.native j = b.element element.native j := fun j behind =>
    others j (Nat.ne_of_gt behind)
  refine ⟨b', hb', base, size, ?_, early, late, ?_⟩
  · rw [Block.texts_succ]
    congr 1
    · refine List.flatMap_congr fun j hj => ?_
      rw [early j (List.mem_range.mp hj)]
    · rw [stored, owned_stored]
  · intro text j low high
    have here : j = i := by omega
    subst here text
    rw [stored, Slot.ofNat_payload_word rfl]
    exact present rfl

theorem isNull_ofAddress {m : Memory} {b : Block} (hb : b ∈ m.chunks) :
    (Slot.ofAddress b.address).isNull = false := by
  have nonzero := Memory.address_ne_zero hb
  simpa [Slot.isNull, Slot.ofAddress] using nonzero

theorem ownedArray_some {m : Memory} {b : Block} (hb : b ∈ m.chunks) (n : Nat)
    (room : n * element.native.size ≤ b.capacity) :
    m.ownedArray element length (.ofAddress b.address) (some n) = b.texts element n ++ [b.address] := by
  simp only [Memory.ownedArray, isNull_ofAddress hb, Bool.false_eq_true, if_false, Memory.arrayLength?, Option.elim_some,
    Block.texts]
  congr 1
  refine List.flatMap_congr fun i hi => ?_
  have next := Nat.mul_le_mul_right element.native.size (Nat.succ_le_of_lt (List.mem_range.mp hi))
  have inside := Block.element_inside (Nat.le_trans next room)
  rw [← Memory.load_element hb element.native inside]
  rfl

theorem encodeItems_moves {r : Except (Failure MarshalError) Unit} (flat : element.IsFlat) (items : List Value) {index : Nat}
    {b : Block} (hb : b ∈ s.memory.chunks) (room : (index + items.length) * element.native.size ≤ b.capacity)
    (run : encodeItems (fun item => encode item element false)
      (fun stored => freeArray element length (.ofAddress b.address) (some stored) .full .engine) element.native
      b.address index items s = (r, s')) :
    (r = .ok () ∧ ∃ made, s.Moves (made.map .block) [] s' ∧ s.memory.Evolves [b.address] s'.memory ∧
      ∃ b' ∈ s'.memory.chunks, b.Filled b' element index (index + items.length) made) ∨
    ((∃ e, r = .error e) ∧ (∀ c ∈ s.memory.chunks, c.address ≠ b.address → c ∈ s'.memory.chunks) ∧
      ∃ made, s.Moves (made.map .block) ((b.texts element index ++ [b.address] ++ made).map .block) s') := by
  induction items generalizing s index b with
  | nil =>
      cases run
      exact Or.inl ⟨rfl, [], .refl _, .refl _ _, b, hb, .refl b element index⟩
  | cons item rest ih =>
      have here : index * element.native.size ≤ b.capacity :=
        Nat.le_trans (Nat.mul_le_mul_right _ (Nat.le_add_right _ _)) room
      have next : (index + 1) * element.native.size ≤ b.capacity := by
        refine Nat.le_trans (Nat.mul_le_mul_right _ ?_) room
        simp only [List.length_cons]
        omega
      rcases encodeItems_cons_cases run with ⟨slot, s₁, converted, later⟩ | ⟨e, s₁, refused, after, rfl⟩
      · obtain ⟨moves, forward, strict⟩ := encode_flat_moves flat converted
        have hb₁ := forward.mem_chunks hb (by simp)
        obtain ⟨b₁, hb₂, filled⟩ := exists_filled_one hb₁ next slot fun isText => strict isText rfl
        have address : b₁.address = b.address := by simp [Block.address, filled.base]
        have capacity : b₁.capacity = b.capacity := Block.capacity_congr filled.size
        have length : index + 1 + rest.length = index + (item :: rest).length := by
          simp only [List.length_cons]
          omega
        have stored := s₁.memory.frontier_store element.native (elementAddress b.address element.native index) slot
        have moves₂ : s.Moves ((element.owned slot).map .block) [] { s₁ with
            memory := s₁.memory.store element.native (elementAddress b.address element.native index) slot } :=
          moves.quiet (t := []) rfl rfl rfl (Nat.le_of_eq stored.symm) rfl rfl rfl
        have forward₂ : s₁.memory.Evolves [b.address] (s₁.memory.store element.native
            (elementAddress b.address element.native index) slot) :=
          Memory.write_evolves hb₁ (Memory.reaches_address_add hb₁ (Block.element_inside next)) _
        -- the rest is stored in the block as this item left it, which is at the same address
        rw [← address] at later
        have rest := ih (by rw [address]; exact hb₂) (by rw [length, capacity]; exact room) later
        rcases rest with ⟨rfl, made, moves₃, forward₃, b₂, hb₃, filled'⟩ | ⟨failed, kept, made, moves₃⟩
        · left
          rw [length] at filled'
          rw [address] at forward₃ moves₃
          refine ⟨rfl, element.owned slot ++ made, ?_, ?_, b₂, hb₃, filled.trans filled' (Nat.le_succ _) ?_⟩
          · rw [List.map_append]
            exact moves₂.trans_gained moves₃
          · exact forward.of_nil.trans (forward₂.trans forward₃)
          · simp only [List.length_cons]
            omega
        · right
          rw [address] at kept moves₃
          refine ⟨failed, fun c hc other => ?_, element.owned slot ++ made, ?_⟩
          · exact kept c (forward₂.mem_chunks (forward.mem_chunks hc (by simp)) (by simpa using other)) other
          have both := moves₂.trans moves₃
          rw [← List.map_append, List.nil_append] at both
          refine both.perm (.refl _) (List.Perm.map _ ?_)
          rw [filled.texts, List.append_assoc, List.append_assoc, List.append_assoc]
          exact (List.perm_append_comm_assoc _ _ _).append_left _
      · cases encode_flat_refused flat refused
        rcases after with ⟨-, rfl⟩ | ⟨⟨text, rfl⟩, -⟩
        case inr => exact absurd refused (calm_encode_flat flat s text s)
        right
        have undone := freeArray_givesUp flat length (.ofAddress b.address) (some index) s
        rw [ownedArray_some hb index here] at undone
        refine ⟨⟨e, rfl⟩, fun c hc _ => (undone.chunks c).mpr hc, [], ?_⟩
        rw [List.append_nil]
        exact undone.moves

/-! ## Whole arrays -/

theorem terminator?_slice (b : Block) {size : Nat} (positive : 0 < size) (n o len fuel : Nat) (enough : n < fuel)
    (room : (n + 1) * size ≤ len)
    (before : ∀ i < n, (b.slice (o + i * size) size).all (· == 0) = false)
    (zeros : (b.slice (o + n * size) size).all (· == 0) = true) :
    terminator? size fuel (b.slice o len) = some n := by
  have width : max size 1 = size := Nat.max_eq_left positive
  induction n generalizing o len fuel with
  | zero =>
      obtain ⟨fuel, rfl⟩ := Nat.exists_eq_succ_of_ne_zero (Nat.ne_of_gt enough)
      simp only [Nat.zero_add, Nat.one_mul, Nat.zero_mul, Nat.add_zero] at room zeros
      simp only [terminator?, width]
      rw [if_neg (by simp [Block.slice]; omega), b.slice_take o len size room, if_pos zeros]
  | succ n ih =>
      obtain ⟨fuel, rfl⟩ := Nat.exists_eq_succ_of_ne_zero (Nat.ne_of_gt (Nat.lt_of_le_of_lt (Nat.zero_le _) enough))
      have first := before 0 (Nat.succ_pos n)
      simp only [Nat.zero_mul, Nat.add_zero] at first
      have split : (n + 1 + 1) * size = (n + 1) * size + size := Nat.succ_mul _ _
      have shift : ∀ i, o + size + i * size = o + (i + 1) * size := fun i => by
        rw [Nat.succ_mul]
        omega
      simp only [terminator?, width]
      rw [if_neg (by simp [Block.slice]; omega), b.slice_take o len size (by omega), if_neg (by simp [first]),
        Block.slice_drop, ih (o + size) (len - size) fuel (by omega) (by omega)]
      · rfl
      · intro i hi
        rw [shift]
        exact before (i + 1) (by omega)
      · rw [shift]
        exact zeros

theorem Block.texts_extend {b : Block} {n k : Nat} (le : n ≤ k)
    (nothing : ∀ j, n ≤ j → j < k → element.owned (b.element element.native j) = []) :
    b.texts element k = b.texts element n := by
  induction k with
  | zero =>
      rw [Nat.le_zero.mp le]
  | succ k ih =>
      rcases Nat.eq_or_lt_of_le le with rfl | less
      · rfl
      · rw [texts_succ, nothing k (by omega) (by omega), List.append_nil]
        exact ih (by omega) fun j low high => nothing j low (by omega)

/-- What says how many elements an array of `count` items has when it is released. -/
def Counted (length : ArrayLength) (count : Nat) (known : Option Nat) : Prop :=
  known = some count ∨ known = none ∧ (length = .zeroTerminated ∨ ∃ n, length = .fixed n ∧ count ≤ n)

theorem terminatedLength_filled {m : Memory} {b : Block} {t : NativeType} {count : Nat} (positive : 0 < t.size)
    (hb : b ∈ m.chunks) (room : (count + 1) * t.size ≤ b.capacity)
    (present : ∀ j, j < count → (b.element t j).isNull = false) (zero : (b.element t count).isNull = true) :
    m.terminatedLength t b.address = count := by
  have word := t.size_le_word
  have reached : b.reaches b.address.toNat = true := by
    rw [Memory.toNat_address hb]
    exact b.reaches_base
  have tail : m.tail b.address = b.slice 0 b.capacity := by
    rw [Memory.tail_eq hb reached, Memory.toNat_address hb, Nat.sub_self, Nat.sub_zero]
  have enough : count < b.capacity + 1 := by
    have : (count + 1) * 1 ≤ (count + 1) * t.size := Nat.mul_le_mul_left _ positive
    omega
  have found : m.terminator? t b.address = some count := by
    unfold Memory.terminator?
    rw [tail]
    refine terminator?_slice b positive count 0 b.capacity _ (by simpa [Block.slice] using enough) room ?_ ?_
    · intro i hi
      have nonzero := present i hi
      rw [Nat.zero_add, ← Bool.not_eq_true, ← Slot.ofBytes_isNull_iff (by simp [Block.slice, word]), Bool.not_eq_true]
      exact nonzero
    · rw [Nat.zero_add, ← Slot.ofBytes_isNull_iff (by simp [Block.slice, word])]
      exact zero
  simp [Memory.terminatedLength, found]

theorem ownedArray_filled {m : Memory} {b : Block} {count : Nat} {known : Option Nat} (hb : b ∈ m.chunks)
    (room : length.capacity count * Ty.utf8.native.size ≤ b.capacity) (counted : Counted length count known)
    (present : ∀ j, j < count → (b.element Ty.utf8.native j).isNull = false)
    (zeros : ∀ j, count ≤ j → j < length.capacity count → b.element Ty.utf8.native j = .zero) :
    m.ownedArray .utf8 length (.ofAddress b.address) known = b.texts .utf8 count ++ [b.address] := by
  have behind : ∀ k, count ≤ k → k ≤ length.capacity count → b.texts .utf8 k = b.texts .utf8 count :=
    fun k le within => Block.texts_extend le fun j low high => by rw [zeros j low (by omega), owned_zero]
  have first : count * Ty.utf8.native.size ≤ b.capacity :=
    Nat.le_trans (Nat.mul_le_mul_right _ (length.le_capacity count)) room
  have address : (Slot.ofAddress b.address).address = b.address := rfl
  rcases counted with rfl | ⟨rfl, rfl | ⟨n, rfl, le⟩⟩
  · exact ownedArray_some hb count first
  · have last := zeros count (Nat.le_refl count) (Nat.lt_succ_self count)
    have terminated := terminatedLength_filled (by decide) hb room present (by rw [last]; rfl)
    have known : m.ownedArray .utf8 .zeroTerminated (.ofAddress b.address) none =
        m.ownedArray .utf8 .zeroTerminated (.ofAddress b.address) (some count) := by
      simp only [Memory.ownedArray, Memory.arrayLength?, address, terminated]
    rw [known]
    exact ownedArray_some hb count first
  · have known : m.ownedArray .utf8 (.fixed n) (.ofAddress b.address) none =
        m.ownedArray .utf8 (.fixed n) (.ofAddress b.address) (some n) := rfl
    have within : n ≤ (ArrayLength.fixed n).capacity count := Nat.le_max_left n count
    rw [known, ownedArray_some hb n (Nat.le_trans (Nat.mul_le_mul_right _ within) room), behind n le within]

/-- The address of an array of text, whose pointers say what belongs to it. -/
def Ty.pointers : Ty → Slot → List UInt64
  | .array .utf8 _, slot => [slot.address]
  | _, _ => []

/-- The blocks that a value of any type consists of; the element count of an array may be known. -/
def Ty.ownedIn : Ty → Memory → Slot → (known : Option Nat) → List UInt64
  | .array element length, m, slot, known => m.ownedArray element length slot known
  | type, _, slot, _ => type.owned slot

theorem eq_of_mem_pointers {a : UInt64} {slot : Slot} (listed : a ∈ type.pointers slot) : a = slot.address := by
  unfold Ty.pointers at listed
  split at listed
  · exact List.mem_singleton.mp listed
  · cases listed

theorem pointers_of_flat (flat : type.IsFlat) (slot : Slot) : type.pointers slot = [] := by
  cases type with
  | array element length => exact absurd rfl (flat element length)
  | _ => rfl

theorem ownedIn_of_flat (flat : type.IsFlat) (m : Memory) (slot : Slot) (known : Option Nat) :
    type.ownedIn m slot known = type.owned slot := by
  cases type with
  | array element length => exact absurd rfl (flat element length)
  | _ => rfl

theorem released_ownedIn (flat : ∀ element length, type = .array element length → element.IsFlat) (m : Memory)
    (slot : Slot) (known : Option Nat) : type.released m .engine .full slot known = type.ownedIn m slot known := by
  cases shape : type with
  | array element length => exact released_engine (flat element length shape) m length slot known
  | _ => exact parts_engine (by intro element length same; cases same) m slot

theorem ownedArray_of_not_text (other : element ≠ .utf8) (m : Memory) (slot : Slot) (known : Option Nat) :
    m.ownedArray element length slot known = if slot.isNull then [] else [slot.address] := by
  have nothing : ∀ x, element.owned x = [] := owned_of_not_text other
  have none_here : ∀ n, ((List.range n).flatMap fun _ => ([] : List UInt64)) = [] := by simp
  unfold Memory.ownedArray
  split
  · rfl
  · simp only [nothing, none_here]
    cases m.arrayLength? element length slot.address known <;> rfl

theorem owns_filled {m : Memory} {b : Block} {count : Nat} {known : Option Nat} (hb : b ∈ m.chunks)
    (room : length.capacity count * Ty.utf8.native.size ≤ b.size) (counted : Counted length count known)
    (present : ∀ j, j < count → (b.element Ty.utf8.native j).isNull = false)
    (zeros : ∀ j, count ≤ j → b.element Ty.utf8.native j = .zero) :
    m.Owns ((Ty.array .utf8 length).pointers (.ofAddress b.address))
      (fun m' => (Ty.array .utf8 length).ownedIn m' (.ofAddress b.address) known) (b.texts .utf8 count ++ [b.address]) := by
  intro m' shown
  obtain ⟨b', hb', base, size, same⟩ := shown b hb (List.mem_singleton.mpr rfl)
  have address : b'.address = b.address := by simp [Block.address, base]
  have inside : length.capacity count * Ty.utf8.native.size ≤ b'.capacity := by
    rw [Block.capacity_congr size]
    exact Nat.le_trans room b.size_le_capacity
  have shows : ∀ j, j < length.capacity count → b'.element Ty.utf8.native j = b.element Ty.utf8.native j := fun j before =>
    same j (Nat.le_trans (Nat.mul_le_mul_right 8 before) room)
  have least := length.le_capacity count
  have texts : b'.texts .utf8 count = b.texts .utf8 count := List.flatMap_congr fun j hj => by
    have before := List.mem_range.mp hj
    rw [shows j (by omega)]
  have owned := ownedArray_filled hb' inside counted
    (fun j before => by
      rw [shows j (by omega)]
      exact present j before)
    (fun j behind before => by
      rw [shows j before]
      exact zeros j behind)
  rw [address, texts] at owned
  simp only [Ty.ownedIn, owned]
  exact .refl _

theorem encodeItems_moves_of_not_text {r : Except (Failure MarshalError) Unit} {m : Memory} {base : UInt64} (flat : element.IsFlat)
    (other : element ≠ .utf8) (present : base ≠ 0) (low : base.toNat < 2 ^ 63) (new : m.frontier ≤ base.toNat)
    (items : List Value) (index : Nat) (small : (index + items.length) * element.native.size ≤ Memory.limit)
    (start : m.Evolves [] s.memory)
    (run : encodeItems (fun item => encode item element false)
      (fun stored => freeArray element length (.ofAddress base) (some stored) .full .engine) element.native base index items
      s = (r, s')) :
    (∀ c ∈ m.chunks, c ∈ s'.memory.chunks) ∧
      (r = .ok () ∧ s.Moves [] [] s' ∨ (∃ e, r = .error e) ∧ s.Moves [] [.block base] s') := by
  induction items generalizing index s with
  | nil =>
      cases run
      exact ⟨fun c hc => start.mem_chunks hc (by simp), Or.inl ⟨rfl, .refl _⟩⟩
  | cons item rest ih =>
      have untouched : ∀ {x s₁}, encode item element false s = (x, s₁) → s₁ = s := fun converted =>
        (encode_flat_cases flat converted).elim (fun text => text.elim fun _ h => absurd h.1 other) (·.1)
      rcases encodeItems_cons_cases run with ⟨slot, s₁, converted, later⟩ | ⟨e, s₁, refused, after, rfl⟩
      · cases untouched converted
        have here : index * element.native.size ≤ Memory.limit :=
          Nat.le_trans (Nat.mul_le_mul_right _ (Nat.le_add_right index _)) small
        have next : (index + 1 + rest.length) * element.native.size ≤ Memory.limit := by
          refine Nat.le_trans (Nat.mul_le_mul_right _ ?_) small
          simp only [List.length_cons]
          omega
        have behind := start.write_behind (a := elementAddress base element.native index)
          (by rw [toNat_elementAddress low here]; omega) (slot.toBytes element.native)
        have stored := s.memory.frontier_store element.native (elementAddress base element.native index) slot
        have quiet : s.Moves [] [] { s with
            memory := s.memory.store element.native (elementAddress base element.native index) slot } :=
          (Engine.Moves.refl s).quiet (t := []) rfl rfl rfl (Nat.le_of_eq stored.symm) rfl rfl rfl
        obtain ⟨kept, done⟩ := ih (index + 1) next behind later
        exact ⟨kept, done.imp (fun done => ⟨done.1, quiet.trans done.2⟩) fun done => ⟨done.1, quiet.trans done.2⟩⟩
      · cases untouched refused
        rcases after with ⟨-, rfl⟩ | ⟨⟨text, rfl⟩, -⟩
        case inr => exact absurd refused (calm_encode_flat flat s text s)
        have undone := freeArray_givesUp flat length (.ofAddress base) (some index) s
        have container : s.memory.ownedArray element length (.ofAddress base) (some index) = [base] := by
          rw [ownedArray_of_not_text other, if_neg (by simpa [Slot.isNull, Slot.ofAddress] using present)]
          rfl
        rw [container] at undone
        exact ⟨fun c hc => (undone.chunks c).mpr (start.mem_chunks hc (by simp)), Or.inr ⟨⟨e, rfl⟩, undone.moves⟩⟩

/-- Filling the block that was made for an array: it belongs to the array with the texts that were made, or it is
given up with them. `m` is memory before the block was made. -/
theorem encodeItems_fills {r : Except (Failure MarshalError) Unit} {m : Memory} {b : Block} (flat : element.IsFlat)
    (items : List Value)
    (small : items.length * element.native.size ≤ Memory.limit) (hb : b ∈ s.memory.blocks) (fresh : b.stored = #[])
    (size : b.size = max (length.capacity items.length * element.native.size) 1)
    (first : m.Evolves [] s.memory) (behind : b.address.toNat = m.frontier)
    (run : encodeItems (fun item => encode item element false)
      (fun stored => freeArray element length (.ofAddress b.address) (some stored) .full .engine) element.native
      b.address 0 items s = (r, s')) :
    ∃ texts : List UInt64,
      (r = .ok () ∧ s.Moves (texts.map .block) [] s' ∧ ∀ known, Counted length items.length known →
        s'.memory.Owns ((Ty.array element length).pointers (.ofAddress b.address))
          (fun m => (Ty.array element length).ownedIn m (.ofAddress b.address) known) (texts ++ [b.address])) ∨
      ((∃ e, r = .error e) ∧ (∀ c ∈ m.chunks, c ∈ s'.memory.chunks) ∧
        s.Moves (texts.map .block) ((b.address :: texts).map .block) s') := by
  have chunk := Memory.mem_chunks_of_live hb
  by_cases text : element = .utf8
  · subst text
    have zeros : ∀ j, b.element Ty.utf8.native j = .zero := fun j => by
      have same : b = ⟨b.base, b.size, b.label, #[]⟩ := by rw [← fresh]
      rw [same, Block.element_fresh]
    have room : length.capacity items.length * Ty.utf8.native.size ≤ b.size := by
      rw [size]
      exact Nat.le_max_left _ 1
    have least : items.length * Ty.utf8.native.size ≤ b.capacity :=
      Nat.le_trans (Nat.mul_le_mul_right _ (length.le_capacity _)) (Nat.le_trans room b.size_le_capacity)
    have none_stored : b.texts .utf8 0 = [] := rfl
    -- the zeros behind the stored items are what ends the array when it is released
    rcases encodeItems_moves flat items chunk (by rw [Nat.zero_add]; exact least) run with
      ⟨rfl, texts, moves, forward, b', hb', done⟩ | ⟨failed, kept, texts, moves⟩
    · refine ⟨texts, Or.inl ⟨rfl, moves, fun known counted => ?_⟩⟩
      have address : b'.address = b.address := by simp [Block.address, done.base]
      rw [Nat.zero_add] at done
      have held : b'.texts .utf8 items.length = texts := by rw [done.texts, none_stored, List.nil_append]
      have owns := owns_filled hb' (by rw [done.size]; exact room) counted
        (fun j high => done.present rfl j (Nat.zero_le j) high) (fun j low => by rw [done.behind j low, zeros j])
      rwa [held, address] at owns
    · rw [none_stored] at moves
      refine ⟨texts, Or.inr ⟨failed, fun c hc => kept c (first.mem_chunks hc (by simp)) fun same => ?_, moves⟩⟩
      have low := Memory.base_lt_frontier hc
      rw [← Memory.toNat_address hc, same, behind] at low
      exact Nat.lt_irrefl _ low
  · -- without text there is nothing but the array itself, however large it is
    have bound := m.frontier_lt
    obtain ⟨kept, ⟨rfl, moves⟩ | ⟨failed, moves⟩⟩ := encodeItems_moves_of_not_text flat text
      (Memory.address_ne_zero chunk) (by omega) (by omega) items 0 (by rwa [Nat.zero_add]) first run
    · refine ⟨[], Or.inl ⟨rfl, moves, fun known _ m' _ => ?_⟩⟩
      simp only [Ty.ownedIn, ownedArray_of_not_text text, isNull_ofAddress chunk]
      exact .refl _
    · exact ⟨[], Or.inr ⟨failed, kept, moves⟩⟩

/-- What converting an array leaves: the blocks of `L`, of which the array consists. Null has none. -/
structure ArrayMade (value : Value) (element : Ty) (length : ArrayLength) (s : Engine) (slot : Slot) (count : Nat)
    (L : List UInt64) (s' : Engine) : Prop where
  moves : s.Moves (L.map .block) [] s'
  new : ∀ a ∈ (Ty.array element length).pointers slot, a = 0 ∨ s.memory.frontier ≤ a.toNat
  counted : (∃ items, value = .array items ∧ count = items.length ∧ L ≠ []) ∨ (∀ items, value ≠ .array items) ∧ L = []
  owns : ∀ known, (∀ items, value = .array items → Counted length items.length known) →
    s'.memory.Owns ((Ty.array element length).pointers slot) (fun m => (Ty.array element length).ownedIn m slot known) L

theorem ArrayMade.owns_counted {slot : Slot} {count : Nat} {L : List UInt64}
    (h : ArrayMade value element length s slot count L s') :
    s'.memory.Owns ((Ty.array element length).pointers slot)
      (fun m => (Ty.array element length).ownedIn m slot (some count)) L := by
  refine h.owns (some count) fun items array => Or.inl ?_
  rcases h.counted with ⟨items', array', counted, -⟩ | ⟨other, -⟩
  · rw [array] at array'
    cases array'
    rw [counted]
  · exact absurd array (other items)

theorem made_of_encodeArray {slot : Slot} {count : Nat} (flat : element.IsFlat)
    (run : encodeArray value element length nullable s = (.ok (slot, count), s')) :
    ∃ L, ArrayMade value element length s slot count L s' := by
  rcases encodeArrayWith_cases run with ⟨items, block, s₁, filled, rfl, small, made, items_run, done⟩ |
    ⟨rfl, ⟨same, other⟩ | ⟨e, impossible⟩⟩
  · have moves := EngineM.allocate_moves made
    obtain ⟨first, behind⟩ := allocate_evolves made
    obtain ⟨b, hb, rfl, base, size, fresh⟩ := allocate_block made
    obtain ⟨texts, ⟨rfl, moves', owns⟩ | ⟨⟨e, rfl⟩, -⟩⟩ :=
      encodeItems_fills flat items small hb fresh size first behind items_run
    · cases done
      refine ⟨texts ++ [b.address], ⟨(moves.trans_gained moves').perm ?_ (.refl _), fun a listed => ?_,
        Or.inl ⟨items, rfl, rfl, by simp⟩, fun known counted => owns known (counted items rfl)⟩⟩
      · rw [List.map_append]
        exact List.perm_append_comm
      · rw [eq_of_mem_pointers listed]
        exact Or.inr (Nat.le_of_eq behind.symm)
    · cases done
  · cases same
    exact ⟨[], .refl _, fun a listed => Or.inl (eq_of_mem_pointers listed), Or.inr ⟨other, rfl⟩, fun known _ m' _ => .refl _⟩
  · cases impossible

theorem undone_of_encodeArray {e : Failure MarshalError} (flat : element.IsFlat)
    (run : encodeArray value element length nullable s = (.error e, s')) :
    (∀ c ∈ s.memory.chunks, c ∈ s'.memory.chunks) ∧ ∃ L : List UInt64, s.Moves (L.map .block) (L.map .block) s' := by
  rcases encodeArrayWith_cases run with ⟨items, block, s₁, filled, rfl, small, made, items_run, done⟩ | ⟨rfl, -⟩
  · have moves := EngineM.allocate_moves made
    obtain ⟨first, behind⟩ := allocate_evolves made
    obtain ⟨b, hb, rfl, base, size, fresh⟩ := allocate_block made
    obtain ⟨texts, ⟨rfl, -⟩ | ⟨-, kept, moves'⟩⟩ :=
      encodeItems_fills flat items small hb fresh size first behind items_run
    · cases done
    · exact ⟨kept, b.address :: texts, moves.trans moves'⟩
  · exact ⟨fun c hc => hc, [], .refl _⟩

theorem made_of_toNative {slot : Slot}
    (shallow : ∀ element length, type = .array element length → element.IsFlat)
    (run : toNative value type nullable s = (.ok slot, s')) :
    ∃ L : List UInt64, s.Moves (L.map .block) [] s' ∧
      (∀ a ∈ type.pointers slot, a = 0 ∨ s.memory.frontier ≤ a.toNat) ∧
      ((∀ element length items, type = .array element length → value = .array items →
        Counted length items.length none) →
        s'.memory.Owns (type.pointers slot) (fun m => type.ownedIn m slot none) L) := by
  have encoded := toNative_ok run
  by_cases array : ∃ element length, type = .array element length
  · obtain ⟨element, length, rfl⟩ := array
    have flat := shallow element length rfl
    rw [encode] at encoded
    obtain ⟨⟨found, count⟩, s₂, converted, last⟩ := EngineM.failing_bind_ok encoded
    cases last
    obtain ⟨L, made⟩ := made_of_encodeArray flat converted
    exact ⟨L, made.moves, made.new, fun counted => made.owns none fun items array =>
      counted element length items rfl array⟩
  · have flat : type.IsFlat := fun element length same => array ⟨element, length, same⟩
    refine ⟨type.owned slot, (encode_flat_moves flat encoded).1, fun a listed => ?_, fun _ m' _ => ?_⟩
    · rw [pointers_of_flat flat] at listed
      cases listed
    · simp only [ownedIn_of_flat flat]
      exact .refl _

theorem undone_of_toNative {e : Failure MarshalError}
    (shallow : ∀ element length, type = .array element length → element.IsFlat)
    (run : toNative value type nullable s = (.error e, s')) :
    (∀ c ∈ s.memory.chunks, c ∈ s'.memory.chunks) ∧ ∃ L : List UInt64, s.Moves (L.map .block) (L.map .block) s' := by
  obtain ⟨s₁, refused, after⟩ := EncodeM.onError_error run
  have undone : (∀ c ∈ s.memory.chunks, c ∈ s₁.memory.chunks) ∧
      ∃ L : List UInt64, s.Moves (L.map .block) (L.map .block) s₁ := by
    by_cases array : ∃ element length, type = .array element length
    · obtain ⟨element, length, rfl⟩ := array
      have flat := shallow element length rfl
      rw [encode] at refused
      rcases EngineM.failing_bind_cases refused with ⟨a, s₂, -, impossible⟩ | ⟨e', failed, -⟩
      · cases impossible
      · exact undone_of_encodeArray flat failed
    · cases encode_flat_refused (fun element length same => array ⟨element, length, same⟩) refused
      exact ⟨fun c hc => hc, [], .refl _⟩
  obtain ⟨kept, L, moves⟩ := undone
  -- an error is counted, which the ledger does not show
  rcases after with ⟨-, rfl⟩ | ⟨-, rfl⟩
  · exact ⟨kept, L, moves.quiet (t := []) rfl rfl rfl (Nat.le_refl _) rfl rfl rfl⟩
  · exact ⟨kept, L, moves⟩

end Ferry
