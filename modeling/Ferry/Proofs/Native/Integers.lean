import Ferry.Marshal.Encode
import Ferry.Proofs.Memory.Evolution

/-!
# Integers on the native side

An integer that a type can hold comes back from its slot as it was (`integer_encodeInteger`). A word in memory
that is read at a narrower type gives the integer that its low bytes say (`integer_load`).
-/

set_option autoImplicit false

namespace Ferry

namespace LittleEndian

theorem decode_take (bytes : List UInt8) (k : Nat) (fits : k ≤ bytes.length) :
    decode (bytes.take k) = decode bytes % bound k := by
  induction bytes generalizing k with
  | nil =>
      rw [Nat.le_zero.mp fits]
      rfl
  | cons b rest ih =>
      cases k with
      | zero => simp [decode, bound, Nat.mod_one]
      | succ k =>
          have low := b.toNat_lt
          have digit : (b.toNat + 256 * decode rest) % 256 = b.toNat := by omega
          have higher : (b.toNat + 256 * decode rest) / 256 = decode rest := by omega
          rw [List.take_succ_cons, decode, decode, bound, ih k (by simpa using fits), Nat.mod_mul, digit, higher]

end LittleEndian

namespace Slot

theorem toNat_ofInt (v : Int) : ((ofInt v).bits.toNat : Int) = v % 0x10000000000000000 := by
  show ((UInt64.ofNat (v % 0x10000000000000000).toNat).toNat : Int) = _
  rw [UInt64.toNat_ofNat']
  omega

theorem integer_congr {t : NativeType} {x y : Slot} (same : x.payload t = y.payload t) :
    x.integer t = y.integer t := by
  rw [integer, integer, same]

theorem eq_of_payload {t : NativeType} {x y : Slot} (word : t.size = 8) (same : x.payload t = y.payload t) : x = y := by
  rw [← ofNat_payload_word word x, same, ofNat_payload_word word]

theorem payload_ofNat_payload (x : Slot) (t : NativeType) : (ofNat (x.payload t)).payload t = x.payload t := by
  have low : x.payload t < 2 ^ 64 := Nat.lt_of_le_of_lt (Nat.mod_le _ _) x.bits.toNat_lt
  show (UInt64.ofNat (x.payload t)).toNat % LittleEndian.bound t.size = x.payload t
  rw [UInt64.toNat_ofNat', Nat.mod_eq_of_lt low]
  exact Nat.mod_mod _ _

theorem payload_narrow (t : NativeType) (x : Slot) : (x.narrow t).payload t = x.payload t := by
  unfold narrow
  split
  · exact payload_ofNat_payload x t
  · rfl

theorem integer_eq_zero_iff (x : Slot) (t : NativeType) : x.integer t = 0 ↔ x.payload t = 0 := by
  have below : x.payload t < LittleEndian.bound t.size := Nat.mod_lt _ (LittleEndian.bound_pos t.size)
  unfold integer
  split
  · rename_i negative
    rw [Bool.and_eq_true, decide_eq_true_eq] at negative
    omega
  · omega

/-- Two's complement gives back every integer in the range of the type. -/
theorem integer_ofInt {t : NativeType} {v : Int} (held : t.holds v = true) : (ofInt v).integer t = v := by
  have word := toNat_ofInt v
  unfold NativeType.holds at held
  cases t with
  | i8 | i16 | i32 | i64 =>
      simp only [NativeType.range?, Bool.and_eq_true, decide_eq_true_eq] at held
      simp only [integer, payload, NativeType.isSigned, NativeType.size, LittleEndian.bound, Bool.true_and,
        decide_eq_true_eq]
      split <;> omega
  | u8 | u16 | u32 | u64 =>
      simp only [NativeType.range?, Bool.and_eq_true, decide_eq_true_eq] at held
      simp only [integer, payload, NativeType.isSigned, NativeType.size, LittleEndian.bound, Bool.false_and,
        Bool.false_eq_true, if_false]
      omega
  | _ => simp [NativeType.range?] at held

theorem isNull_iff_payload {t : NativeType} (word : t.size = 8) (x : Slot) : x.isNull = true ↔ x.payload t = 0 := by
  have whole : x.payload t = x.bits.toNat := by
    have low := x.bits.toNat_lt
    rw [payload, word]
    exact Nat.mod_eq_of_lt low
  rw [whole, isNull, beq_iff_eq, ← UInt64.toNat_inj]
  rfl

theorem integer_word (slot : Slot) : slot.integer .u64 = slot.bits.toNat := by
  have low := slot.bits.toNat_lt
  simp only [integer, payload, NativeType.isSigned, NativeType.size, LittleEndian.bound, Bool.false_and,
    Bool.false_eq_true, if_false]
  omega

/-- Every integer type but the widest unsigned one is in the range of a signed word. -/
theorem integer_signed {t : NativeType} (integral : t.isInteger = true) (other : t ≠ .u64) (slot : Slot) :
    (Int64.ofInt (slot.integer t)).toInt = slot.integer t := by
  have low := slot.bits.toNat_lt
  have range : -2 ^ 63 ≤ slot.integer t ∧ slot.integer t < 2 ^ 63 := by
    unfold integer payload
    cases t with
    | u64 => exact absurd rfl other
    | i8 | i16 | i32 | i64 =>
        simp only [NativeType.isSigned, NativeType.size, LittleEndian.bound, Bool.true_and, decide_eq_true_eq]
        split <;> omega
    | u8 | u16 | u32 =>
        simp only [NativeType.isSigned, NativeType.size, LittleEndian.bound, Bool.false_and, Bool.false_eq_true,
          if_false]
        omega
    | _ => cases integral
  exact Int64.toInt_ofInt_of_le range.1 range.2

end Slot

/-- A word below the signed range's end is the same number as a signed one. -/
theorem toInt_toInt64 {u : UInt64} (low : u < 0x8000000000000000) : u.toInt64.toInt = u.toNat := by
  have small : u.toNat < 2 ^ 63 := by simpa [UInt64.lt_iff_toNat_lt] using low
  have word : u.toInt64.toInt = if 2 * u.toNat < 2 ^ 64 then (u.toNat : Int) else u.toNat - (2 ^ 64 : Nat) := rfl
  rw [word, if_pos (by omega)]

theorem integer_encodeInteger {v : Int} {type : Ty} {slot : Slot} (encoded : encodeInteger v type = .ok slot) :
    slot.integer type.native = v := by
  unfold encodeInteger at encoded
  split at encoded
  · rename_i held
    cases encoded
    rw [Slot.integer_congr (Slot.payload_narrow type.native (.ofInt v)), Slot.integer_ofInt held]
  · split at encoded <;> cases encoded

namespace Memory

variable {m : Memory}

theorem read_take (m : Memory) (a : UInt64) {k n : Nat} (fits : k ≤ n) : (m.read a n).take k = m.read a k := by
  unfold read
  split
  · exact Block.slice_take _ _ n k fits
  · rw [List.take_replicate, Nat.min_eq_left fits]

theorem length_read (m : Memory) (a : UInt64) (n : Nat) : (m.read a n).length = n := by
  unfold read
  split
  · simp [Block.slice]
  · exact List.length_replicate

/-- A word has the low bytes that are read at a narrower type. -/
theorem payload_load (m : Memory) (t : NativeType) (a : UInt64) :
    (m.load t a).payload t = (m.load .u64 a).payload t := by
  have bits : ∀ n ≤ 8, (Slot.ofBytes (m.read a n)).bits.toNat = LittleEndian.decode (m.read a n) := fun n short =>
    Slot.toNat_ofBytes (by rwa [length_read])
  unfold load Slot.payload
  rw [bits t.size t.size_le_word, bits NativeType.u64.size (by decide), ← m.read_take a t.size_le_word,
    LittleEndian.decode_take _ _ (by rw [length_read]; exact t.size_le_word), Nat.mod_mod]
  rfl

theorem integer_load (m : Memory) (t : NativeType) (a : UInt64) :
    (m.load t a).integer t = (m.load .u64 a).integer t :=
  Slot.integer_congr (m.payload_load t a)

end Memory

end Ferry
