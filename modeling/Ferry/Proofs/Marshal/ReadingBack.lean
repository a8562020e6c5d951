import Ferry.Proofs.Marshal.Admission
import Ferry.Proofs.Marshal.Counts
import Ferry.Proofs.Marshal.Making
import Ferry.Proofs.Text.Utf8

/-!
# Values that come back

What a caller finds when a value is converted to a native one and read back. Numbers, truth values, addresses and text
come back, in one form for each: an unsigned number that a signed one can be is a signed one, and the null address is
null. `Slot.Holds` says that a slot is read as a value for as long as the blocks that were made for it are as they are;
`holds_of_encode` says so of every single value that converts.
-/

set_option autoImplicit false

namespace Ferry

/-! ## What comes back -/

mutual

/-- The form in which a value comes back. -/
def Value.canonical : Value → Value
  | .uint u => .ofUInt64 u
  | .pointer a => if a = 0 then .null else .pointer a
  | .array items => .array (Value.canonicalAll items)
  | v => v

def Value.canonicalAll : List Value → List Value
  | [] => []
  | v :: rest => v.canonical :: Value.canonicalAll rest

end

theorem canonicalAll_eq (items : List Value) : Value.canonicalAll items = items.map Value.canonical := by
  induction items with
  | nil => rfl
  | cons v rest ih => rw [Value.canonicalAll, ih, List.map_cons]

/-- All bytes are zero when the value is an element of an array, so that it ends a terminated one. -/
def Value.isBlank : Value → Bool
  | .boolean b => !b
  | .int i => i == 0
  | .uint u => u == 0
  | .number x => x.bits == 0
  | .pointer a => a == 0
  | _ => false

/-- Types of which the values come back. An array inside of another one has to say its own length. -/
def Ty.isFaithful : Ty → Bool
  | .boolean | .int8 | .uint8 | .int16 | .uint16 | .int32 | .uint32 | .int64 | .uint64 | .double | .utf8 | .pointer =>
    true
  | .array element length => element.isFaithful && length.parameter?.isNone
  | _ => false

/-- A value that comes back as what it is: no integer for a double, no structure for an address. An array inside of
another one has the number of elements that its type says, and none before its terminator that is one itself. -/
def Value.suits (value : Value) : Ty → Bool
  | .double =>
    match value with
    | .number _ => true
    | _ => false
  | .pointer =>
    match value with
    | .pointer _ => true
    | _ => false
  | .array element length =>
    match value with
    | .array items =>
      (items.all fun item => item.suits element) &&
        match length with
        | .fixed n => items.length == n
        | .zeroTerminated => items.all fun item => !item.isBlank
        | .parameter _ => true
    | _ => true
  | _ => true

/-! ## Integers -/

theorem canonical_ofUInt64 (u : UInt64) : (Value.ofUInt64 u).canonical = .ofUInt64 u := by
  by_cases low : u < 0x8000000000000000
  · rw [Value.ofUInt64, if_pos low, Value.canonical] <;> simp
  · rw [Value.ofUInt64, if_neg low, Value.canonical, Value.ofUInt64, if_neg low]

theorem integer?_canonical (v : Value) : v.canonical.integer? = v.integer? := by
  cases v with
  | uint u => rw [Value.canonical, integer?_ofUInt64, Value.integer?]
  | pointer a =>
      rw [Value.canonical]
      split <;> rfl
  | array items => rw [Value.canonical, Value.integer?, Value.integer?] <;> simp
  | _ => rfl

theorem canonical_canonical_of_integer {v : Value} {n : Int} (integer : v.integer? = some n) :
    v.canonical.canonical = v.canonical := by
  cases v with
  | int i => rfl
  | uint u => rw [Value.canonical, canonical_ofUInt64]
  | _ => cases integer

theorem eq_of_integer? {v w : Value} {n : Int} (left : v.integer? = some n) (right : w.integer? = some n)
    (first : v.canonical = v) (second : w.canonical = w) : v = w := by
  have high : ∀ u : UInt64, (Value.uint u).canonical = .uint u → 2 ^ 63 ≤ u.toNat := by
    intro u same
    rw [Value.canonical, Value.ofUInt64] at same
    by_cases low : u < 0x8000000000000000
    · rw [if_pos low] at same
      cases same
    · have above := UInt64.not_lt.mp low
      exact UInt64.le_iff_toNat_le.mp above
  cases v with
  | int i =>
      cases w with
      | int j =>
          simp only [Value.integer?, Option.some.injEq] at left right
          rw [Int64.toInt_inj.mp (left.trans right.symm)]
      | uint u =>
          simp only [Value.integer?, Option.some.injEq] at left right
          have above := high u second
          have below := i.toInt_lt
          omega
      | _ => cases right
  | uint u =>
      cases w with
      | int j =>
          simp only [Value.integer?, Option.some.injEq] at left right
          have above := high u first
          have below := j.toInt_lt
          omega
      | uint x =>
          simp only [Value.integer?, Option.some.injEq] at left right
          rw [UInt64.toNat_inj.mp (Int.ofNat_inj.mp (left.trans right.symm))]
      | _ => cases right
  | _ => cases left

theorem isBlank_iff {v : Value} {n : Int} (integer : v.integer? = some n) : v.isBlank = true ↔ n = 0 := by
  cases v with
  | int i =>
      rw [Value.integer?, Option.some.injEq] at integer
      rw [Value.isBlank, beq_iff_eq, ← integer, ← Int64.toInt_inj]
      rfl
  | uint u =>
      rw [Value.integer?, Option.some.injEq] at integer
      rw [Value.isBlank, beq_iff_eq, ← integer, ← UInt64.toNat_inj]
      exact Int.ofNat_eq_zero.symm
  | _ => cases integer

/-- An integer type reads the integer that the slot holds, in its one form. -/
theorem fromNative_integer {type : Ty} (integral : type.native.isInteger = true) (slot : Slot) (transfer : Transfer)
    (s : Engine) : ∃ v, fromNative type slot transfer s = (.ok v, s) ∧
      v.integer? = some (slot.integer type.native) ∧ v.canonical = v := by
  cases type with
  | uint64 =>
      refine ⟨.ofUInt64 slot.bits, rfl, ?_, canonical_ofUInt64 slot.bits⟩
      rw [integer?_ofUInt64, ← Slot.integer_word]
      rfl
  | int8 | uint8 | int16 | uint16 | int32 | uint32 | int64 =>
      exact ⟨_, rfl, congrArg some (Slot.integer_signed rfl (by simp [Ty.native]) slot), rfl⟩
  | _ => cases integral

/-- What is read from a slot depends on the value of its type alone, and not on what is above it in the slot. -/
theorem fromNative_congr {type : Ty} {x y : Slot} (same : x.payload type.native = y.payload type.native)
    (transfer : Transfer) : fromNative type x transfer = fromNative type y transfer := by
  cases type with
  | void => rfl
  | boolean =>
      have truth : x.truth = y.truth := congrArg (· != 0) same
      simp only [fromNative, decodeScalar?, truth]
  | float =>
      have single : x.payload .f32 = y.payload .f32 := same
      simp only [fromNative, decodeScalar?, single]
  | int8 | uint8 | int16 | uint16 | int32 | uint32 =>
      exact congrArg (fun n => (pure (.int (Int64.ofInt n)) : MarshalM Value)) (Slot.integer_congr same)
  | int64 | uint64 | double | utf8 | pointer | array | struct | callback | destroyNotify =>
      rw [Slot.eq_of_payload rfl same]

/-! ## What a slot holds -/

/-- The blocks from an address on are as they were. -/
def Memory.KeepsFrom (floor : Nat) (m m' : Memory) : Prop :=
  ∀ b ∈ m.chunks, floor ≤ b.base → b ∈ m'.chunks

namespace Memory.KeepsFrom

variable {floor lower : Nat} {m m' m'' : Memory}

theorem refl (floor : Nat) (m : Memory) : KeepsFrom floor m m := fun _ hb _ => hb

theorem trans (first : KeepsFrom floor m m') (second : KeepsFrom floor m' m'') : KeepsFrom floor m m'' :=
  fun b hb above => second b (first b hb above) above

theorem mono (kept : KeepsFrom lower m m') (le : lower ≤ floor) : KeepsFrom floor m m' :=
  fun b hb above => kept b hb (Nat.le_trans le above)

theorem of_evolves (forward : m.Evolves [] m') : KeepsFrom floor m m' :=
  fun _ hb _ => forward.mem_chunks hb (by simp)

theorem of_write {b : Block} {a : UInt64} (hb : b ∈ m.chunks) (below : b.base < floor)
    (reached : b.reaches a.toNat = true) (bytes : List UInt8) : KeepsFrom floor m (m.write a bytes) := by
  intro c hc above
  refine (write_evolves hb reached bytes).mem_chunks hc ?_
  rw [List.mem_singleton]
  intro same
  have equal := eq_of_address hc hb same
  rw [equal] at above
  omega

end Memory.KeepsFrom

/-- The slot holds a value of a type: it is read as the value as long as the blocks from an address on are as they
are in `m`, and it is zero when the value is blank. -/
structure Slot.Holds (slot : Slot) (type : Ty) (value : Value) (floor : Nat) (m : Memory) : Prop where
  reads : ∀ t : Engine, m.KeepsFrom floor t.memory → ∀ transfer, fromNative type slot transfer t = (.ok value.canonical, t)
  blank : slot.payload type.native = 0 ↔ value.isBlank = true

namespace Slot

variable {slot : Slot} {type : Ty} {value : Value} {floor base : Nat} {m m' : Memory}

theorem Holds.later (holds : slot.Holds type value floor m) (kept : m.KeepsFrom floor m') :
    slot.Holds type value floor m' :=
  ⟨fun t keeps => holds.reads t (kept.trans keeps), holds.blank⟩

theorem Holds.lower (holds : slot.Holds type value floor m) (le : base ≤ floor) : slot.Holds type value base m :=
  ⟨fun t keeps => holds.reads t (keeps.mono le), holds.blank⟩

theorem fromNative_stored (type : Ty) (slot : Slot) (transfer : Transfer) :
    fromNative type (ofNat (slot.payload type.native)) transfer = fromNative type slot transfer :=
  fromNative_congr (slot.payload_ofNat_payload type.native) transfer

theorem Holds.stored (holds : slot.Holds type value floor m) :
    (ofNat (slot.payload type.native)).Holds type value floor m where
  reads t keeps transfer := by
    rw [fromNative_stored]
    exact holds.reads t keeps transfer
  blank := by
    rw [payload_ofNat_payload]
    exact holds.blank

end Slot

/-! ## Single values -/

section Scalars

variable {s s' : Engine} {type : Ty} {value : Value} {slot : Slot} {floor : Nat}

theorem holds_of_integer (integral : type.native.isInteger = true) {n : Int} (integer : value.integer? = some n)
    (encoded : encodeInteger n type = .ok slot) (m : Memory) : slot.Holds type value floor m := by
  have held := integer_encodeInteger encoded
  constructor
  · intro t keeps transfer
    obtain ⟨v, reads, read, canonical⟩ := fromNative_integer integral slot transfer t
    rw [held] at read
    have same := eq_of_integer? read ((integer?_canonical value).trans integer) canonical
      (canonical_canonical_of_integer integer)
    rw [reads, same]
  · rw [isBlank_iff integer, ← held, Slot.integer_eq_zero_iff]

theorem holds_of_encodeInteger (integral : type.native.isInteger = true)
    (scalar : encodeScalar value type = match value.integer? with
      | some v => .ofExcept (encodeInteger v type)
      | none => throw (.error (mismatch type value)))
    (run : encodeScalar value type s = (.ok slot, s')) : slot.Holds type value floor s'.memory := by
  rw [scalar] at run
  cases integer : value.integer? with
  | none =>
      rw [integer] at run
      cases run
  | some n =>
      rw [integer] at run
      cases encoded : encodeInteger n type with
      | error e =>
          simp only [encoded] at run
          cases run
      | ok x =>
          simp only [encoded] at run
          cases run
          exact holds_of_integer integral integer encoded _

theorem fromNative_text (present : slot.isNull = false) (transfer : Transfer) (t : Engine) :
    fromNative .utf8 slot transfer t = (.ok (.string (Utf8.read (t.memory.text slot.address))), t) := by
  have looks : decodeScalar? .utf8 slot = none := by
    simp [decodeScalar?, Ty.native, NativeType.isInteger, NativeType.range?, present]
  simp only [fromNative, looks]
  rfl

theorem fromNative_pointer (a : UInt64) (transfer : Transfer) (t : Engine) :
    fromNative .pointer (.ofAddress a) transfer t = (.ok (Value.pointer a).canonical, t) := by
  rw [Value.canonical]
  by_cases null : a = 0
  · rw [if_pos null, null]
    rfl
  · have looks : decodeScalar? .pointer (.ofAddress a) = none := by
      simp [decodeScalar?, Ty.native, NativeType.isInteger, NativeType.range?, Slot.isNull, Slot.ofAddress, null]
    rw [if_neg null]
    simp only [fromNative, looks]
    rfl

theorem text_of_block {m : Memory} {b : Block} (hb : b ∈ m.chunks) {bytes : List UInt8} (fits : bytes.length < b.capacity)
    (nonzero : ∀ byte ∈ bytes, byte ≠ 0) (written : b.slice 0 bytes.length = bytes) (ended : b.byte bytes.length = 0) :
    m.text b.address = bytes := by
  have reached : b.reaches b.address.toNat = true := by
    rw [Memory.toNat_address hb]
    exact b.reaches_base
  obtain ⟨more, rest⟩ : ∃ more, b.capacity - bytes.length = more + 1 := ⟨b.capacity - bytes.length - 1, by omega⟩
  have tail : m.tail b.address = bytes ++ b.slice bytes.length (more + 1) := by
    rw [Memory.tail_eq hb reached, Memory.toNat_address hb, Nat.sub_self, Nat.sub_zero,
      ← List.take_append_drop bytes.length (b.slice 0 b.capacity), b.slice_take 0 _ _ (Nat.le_of_lt fits), written,
      b.slice_drop, Nat.zero_add, rest]
  have stops : (b.slice bytes.length (more + 1)).takeWhile (· != 0) = [] := by
    simp [Block.slice, List.range_succ_eq_map, ended]
  rw [Memory.text, tail, List.takeWhile_append_of_pos (by simpa using nonzero), stops, List.append_nil]

theorem exists_block_of_encodeText {text : String} (run : encodeText text s = (.ok slot, s')) :
    ∃ b ∈ s'.memory.chunks, slot = .ofAddress b.address ∧ b.base = s.memory.frontier ∧
      (Utf8.write text).length < b.capacity ∧ b.slice 0 (Utf8.write text).length = Utf8.write text ∧
      b.byte (Utf8.write text).length = 0 := by
  rcases encodeText_cases run with ⟨block, s₁, made, same, rfl⟩ | ⟨-, e, impossible⟩
  · cases same
    obtain ⟨b, hb, rfl, base, size, fresh⟩ := allocate_block made
    have chunk := Memory.mem_chunks_of_live hb
    have room : (Utf8.write text).length < b.capacity := by
      have := b.size_le_capacity
      omega
    have there : s₁.memory.write b.address (Utf8.write text) = s₁.memory.writeBlock b.base 0 (Utf8.write text) := by
      rw [Memory.write_eq chunk (by rw [Memory.toNat_address chunk]; exact b.reaches_base), Memory.toNat_address chunk,
        Nat.sub_self]
    refine ⟨b.write 0 (Utf8.write text), ?_, ?_, ?_, ?_, ?_, ?_⟩
    · show _ ∈ (s₁.memory.write b.address (Utf8.write text)).chunks
      rw [there]
      exact Memory.mem_writeBlock_self chunk 0 _
    · simp [Block.address]
    · rw [Block.base_write, base]
    · rw [Block.capacity_write]
      exact room
    · exact Block.slice_write_self 0 _ (by omega)
    · rw [Block.byte_write 0 _ (by omega), if_pos (Nat.zero_le _)]
      simp [Block.byte, fresh]
  · cases impossible

theorem encodeText_clean {text : String} (run : encodeText text s = (.ok slot, s')) :
    text.toList.contains '\x00' = false := by
  cases interior : text.toList.contains '\x00' with
  | false => rfl
  | true =>
      unfold encodeText at run
      rw [interior, if_pos rfl] at run
      cases run

theorem holds_of_encodeText {text : String} (run : encodeText text s = (.ok slot, s')) :
    slot.Holds .utf8 (.string text) s.memory.frontier s'.memory := by
  obtain ⟨b, hb, rfl, base, fits, written, ended⟩ := exists_block_of_encodeText run
  constructor
  · intro t keeps transfer
    have still := keeps b hb (Nat.le_of_eq base.symm)
    rw [fromNative_text (isNull_ofAddress hb)]
    have found := text_of_block still fits (Utf8.write_ne_zero (encodeText_clean run)) written ended
    rw [show (Slot.ofAddress b.address).address = b.address from rfl, found, Utf8.read_write]
    rfl
  · rw [← Slot.isNull_iff_payload rfl, isNull_ofAddress hb]
    rfl

theorem holds_of_encode_flat {nullable : Bool} (flat : ∀ element length, type ≠ .array element length)
    (faithful : type.isFaithful = true) (suits : value.suits type = true) (present : value.isNullish = false)
    (run : encode value type nullable s = (.ok slot, s')) : slot.Holds type value s.memory.frontier s'.memory := by
  rw [encode_of_flat flat, present, Bool.false_and, if_neg Bool.false_ne_true] at run
  cases type with
  | int8 | uint8 | int16 | uint16 | int32 | uint32 | int64 | uint64 =>
      refine holds_of_encodeInteger rfl ?_ run
      cases value <;> rfl
  | boolean =>
      cases value with
      | boolean b =>
          cases run
          cases b with
          | false => exact ⟨fun t _ transfer => rfl, by decide⟩
          | true => exact ⟨fun t _ transfer => rfl, by decide⟩
      | _ => cases run
  | double =>
      cases value with
      | number x =>
          cases run
          refine ⟨fun t _ transfer => rfl, ?_⟩
          rw [← Slot.isNull_iff_payload rfl]
          rfl
      | _ => cases suits
  | utf8 =>
      cases value with
      | string text => exact holds_of_encodeText run
      | _ => cases run
  | pointer =>
      cases value with
      | pointer a =>
          cases run
          refine ⟨fun t _ transfer => fromNative_pointer a transfer t, ?_⟩
          rw [← Slot.isNull_iff_payload rfl]
          rfl
      | _ => cases suits
  | array element length => exact absurd rfl (flat element length)
  | _ => cases faithful

end Scalars

end Ferry
