import Ferry.Proofs.Native.Integers
import Ferry.Proofs.Memory.Bytes

/-!
# The values that words carry

A word carries a value of a type in its low bits, as many as the type has: `Slot.value`. Two words carry the same value when
these bits agree, whatever is above them. A small integer becomes a word by extension (`widen_signed`, `widen_unsigned`),
and cutting the word again, or storing and loading it, gives back the same value (`value_narrow`, `value_load_store`). A
store replaces just the bytes of the value: `byte_store`.
-/

set_option autoImplicit false

namespace Ferry

theorem LittleEndian.getElem?_encode {n i : Nat} (v : Nat) (low : i < n) :
    (encode n v)[i]? = some (UInt8.ofNat (v / 2 ^ (8 * i))) := by
  induction n generalizing v i with
  | zero => omega
  | succ n ih =>
      cases i with
      | zero => simp [encode]
      | succ i =>
          rw [encode, List.getElem?_cons_succ, ih (v / 256) (by omega), Nat.div_div_eq_div_mul, Nat.mul_succ, Nat.pow_add,
            Nat.mul_comm]

/-- How many bits a value of the type has. -/
def NativeType.width (t : NativeType) : Nat := 8 * t.size

theorem NativeType.width_le (t : NativeType) : t.width ≤ 64 :=
  Nat.mul_le_mul_left 8 t.size_le_word

theorem NativeType.bound_size (t : NativeType) : LittleEndian.bound t.size = 2 ^ t.width :=
  LittleEndian.bound_eq t.size

namespace Slot

variable {t : NativeType} {x y : Slot}

/-- The value of a type that a word carries: its low bits. -/
def value (t : NativeType) (s : Slot) : BitVec t.width :=
  s.bits.toBitVec.setWidth t.width

theorem toNat_value (t : NativeType) (x : Slot) : (x.value t).toNat = x.payload t := by
  rw [value, BitVec.toNat_setWidth, payload, t.bound_size]
  rfl

theorem value_eq_iff : x.value t = y.value t ↔ x.payload t = y.payload t := by
  rw [← BitVec.toNat_inj, toNat_value, toNat_value]

theorem value_void (x y : Slot) : x.value .void = y.value .void :=
  BitVec.eq_of_zero_length rfl

/-! ## Integers -/

/-- The integer that a word denotes at an integer type, by the width and the signedness of the type. -/
def number (t : NativeType) (s : Slot) : Int :=
  if t.isSigned then (s.value t).toInt else (s.value t).toNat

theorem integer_eq_number (t : NativeType) (x : Slot) : x.integer t = x.number t := by
  unfold integer number
  cases t.isSigned with
  | false => rw [Bool.false_and, if_neg Bool.false_ne_true, if_neg Bool.false_ne_true, toNat_value]
  | true =>
      rw [if_pos rfl, BitVec.toInt_eq_toNat_cond, toNat_value, Bool.true_and, t.bound_size]
      by_cases negative : 2 ^ t.width ≤ 2 * x.payload t
      · rw [if_pos (decide_eq_true negative), if_neg (Nat.not_lt.mpr negative)]
      · rw [if_neg (by simpa using negative), if_pos (Nat.lt_of_not_le negative)]

/-! ## Extension -/

theorem toBitVec_ofInt (v : Int) : (ofInt v).bits.toBitVec = BitVec.ofInt 64 v := by
  apply BitVec.eq_of_toNat_eq
  rw [BitVec.toNat_ofInt]
  have word := toNat_ofInt v
  have cast : (ofInt v).bits.toBitVec.toNat = (ofInt v).bits.toNat := rfl
  omega

theorem widen_signed (extended : t.isExtended = true) (signed : t.isSigned = true) (x : Slot) :
    (x.widen t).bits.toBitVec = (x.value t).signExtend 64 := by
  rw [widen, if_pos extended, toBitVec_ofInt, integer_eq_number, number, if_pos signed]
  rfl

theorem widen_unsigned (extended : t.isExtended = true) (unsigned : t.isSigned = false) (x : Slot) :
    (x.widen t).bits.toBitVec = (x.value t).setWidth 64 := by
  rw [widen, if_pos extended, toBitVec_ofInt, integer_eq_number, number, if_neg (by simp [unsigned]), BitVec.ofInt_natCast,
    BitVec.ofNat_toNat]

theorem setWidth_signExtend {w v : Nat} (b : BitVec w) (wider : w ≤ v) : (b.signExtend v).setWidth w = b := by
  refine BitVec.eq_of_getLsbD_eq fun i low => ?_
  have inside : i < v := by omega
  rw [BitVec.getLsbD_setWidth, BitVec.getLsbD_signExtend]
  simp [low, inside]

theorem value_widen (t : NativeType) (x : Slot) : (x.widen t).value t = x.value t := by
  by_cases extended : t.isExtended = true
  · rw [value]
    cases signed : t.isSigned with
    | true => rw [widen_signed extended signed, setWidth_signExtend _ t.width_le]
    | false =>
        rw [widen_unsigned extended signed, BitVec.setWidth_setWidth_of_le _ t.width_le, BitVec.setWidth_eq]
  · rw [widen, if_neg extended]

theorem value_narrow (t : NativeType) (x : Slot) : (x.narrow t).value t = x.value t :=
  value_eq_iff.mpr (payload_narrow t x)

/-! ## Bytes -/

/-- The byte of a word at an index, the lowest first. -/
def byte (s : Slot) (i : Nat) : UInt8 :=
  ⟨s.bits.toBitVec.extractLsb' (8 * i) 8⟩

theorem byte_eq (x : Slot) (i : Nat) : x.byte i = UInt8.ofNat (x.bits.toNat / 2 ^ (8 * i)) := by
  apply UInt8.toBitVec_inj.mp
  apply BitVec.eq_of_toNat_eq
  show (x.bits.toBitVec.extractLsb' (8 * i) 8).toNat = _
  rw [BitVec.extractLsb'_toNat, Nat.shiftRight_eq_div_pow]
  rfl

theorem getElem?_toBytes {i : Nat} (low : i < t.size) (x : Slot) : (x.toBytes t)[i]? = some (x.byte i) := by
  rw [toBytes, LittleEndian.getElem?_encode _ low, byte_eq]

end Slot

/-! ## Words in memory -/

namespace Memory

variable {m : Memory} {a : UInt64} {t : NativeType}

/-- A store replaces the bytes of the value at its address, and no other byte. -/
theorem byte_store (writable : m.Writable a t.size) (v : Slot) (x : UInt64) : (m.store t a v).byte x =
    if a.toNat ≤ x.toNat ∧ x.toNat < a.toNat + t.size then v.byte (x.toNat - a.toNat) else m.byte x := by
  have length := Slot.length_toBytes t v
  rw [store, byte_write (by rwa [length]), length]
  split
  · rename_i inside
    rw [Slot.getElem?_toBytes (by omega), Option.getD_some]
  · rfl

theorem load_store (writable : m.Writable a t.size) (v : Slot) : (m.store t a v).load t a = .ofNat (v.payload t) := by
  have length := Slot.length_toBytes t v
  have same := m.read_write_self (v.toBytes t) (by rwa [length])
  rw [length] at same
  rw [load, store, same, Slot.ofBytes_toBytes]

theorem value_load_store (writable : m.Writable a t.size) (v : Slot) :
    ((m.store t a v).load t a).value t = v.value t := by
  rw [load_store writable]
  exact Slot.value_eq_iff.mpr (Slot.payload_ofNat_payload v t)

end Memory

end Ferry
