import Ferry.Proofs.Marshal.Conversions
import Ferry.Proofs.Native.Integers

/-!
# Element counts

A length parameter says an element count if its type is an integer type and it holds an integer that is not
negative. Reading a count does nothing else: `decodeLength_count`. An array that is converted yields the number of its
elements: `elementCount_of_encodeArray`.
-/

set_option autoImplicit false

namespace Ferry

/-- The element count that a slot of the type of a length parameter says: an integer that is not negative. -/
def Ty.count? (type : Ty) (slot : Slot) : Option Nat :=
  if type.native.isInteger = true ∧ 0 ≤ slot.integer type.native then some (slot.integer type.native).toNat else none

theorem integer?_ofUInt64 (u : UInt64) : (Value.ofUInt64 u).integer? = some (u.toNat : Int) := by
  unfold Value.ofUInt64
  by_cases low : u < 0x8000000000000000
  · rw [if_pos low]
    rw [Value.integer?, toInt_toInt64 low]
  · rw [if_neg low]
    rfl

theorem integer?_fromNative {type : Ty} {slot : Slot} {s : Engine} {v : Value}
    (yields : (fromNative type slot .nothing s).1 = .ok v) :
    v.integer? = if type.native.isInteger then some (slot.integer type.native) else none := by
  cases type with
  | array element length =>
      rcases result : fromNative (.array element length) slot .nothing s with ⟨r, s'⟩
      rw [result] at yields
      rw [fromNative] at result
      rcases decodeArrayWith_cases result with ⟨count, decoded, -, -, -, rfl⟩ | ⟨-, rfl | ⟨e, rfl⟩⟩
      · cases decoded with
        | error e => cases yields
        | ok items =>
            cases yields
            rfl
      · cases yields
        split <;> rfl
      · cases yields
  | uint64 =>
      cases yields
      rw [integer?_ofUInt64, ← Slot.integer_word]
      rfl
  | int8 | uint8 | int16 | uint16 | int32 | uint32 | int64 =>
      cases yields
      exact congrArg some (Slot.integer_signed rfl (by simp [Ty.native]) slot)
  | void | boolean | float | double =>
      cases yields
      rfl
  | utf8 | pointer | struct layout | callback signature | destroyNotify =>
      simp only [fromNative] at yields
      cases found : decodeScalar? _ slot with
      | some w =>
          rw [found] at yields
          cases yields
          unfold decodeScalar? at found
          cases null : slot.isNull <;> simp [Ty.native, NativeType.isInteger, NativeType.range?, null] at found
          subst found
          rfl
      | none =>
          rw [found] at yields
          cases yields
          rfl

theorem decodeLength_count (slot : Slot) (type : Ty) (s : Engine) :
    (decodeLength slot type s).1.toOption = type.count? slot := by
  unfold decodeLength Ty.count?
  rw [EngineM.failing_bind]
  rcases found : fromNative type slot .nothing s with ⟨r, s'⟩
  cases r with
  | error e =>
      have other : type.native.isInteger = false := by
        cases type with
        | int8 | uint8 | int16 | uint16 | int32 | uint32 | int64 | uint64 => cases found
        | _ => rfl
      simp only [other, Bool.false_eq_true, false_and, if_false]
      rfl
  | ok v =>
      have integer := integer?_fromNative (v := v) (by rw [found])
      simp only [integer]
      by_cases integral : type.native.isInteger = true
      · simp only [integral, if_true, true_and]
        by_cases positive : 0 ≤ slot.integer type.native <;> simp only [positive, if_true, if_false] <;> rfl
      · simp only [integral, Bool.false_eq_true, if_false, false_and]
        rfl

def Value.elementCount : Value → Nat
  | .array items => items.length
  | _ => 0

theorem elementCount_of_encodeArray {value : Value} {element : Ty} {length : ArrayLength} {nullable : Bool}
    {slot : Slot} {count : Nat} {s s' : Engine}
    (run : encodeArray value element length nullable s = (.ok (slot, count), s')) : value.elementCount = count := by
  rcases encodeArrayWith_cases run with ⟨items, block, s₁, filled, rfl, -, -, -, result⟩ |
    ⟨-, ⟨result, noArray⟩ | ⟨e, impossible⟩⟩
  · cases filled with
    | error e => cases result
    | ok u =>
        cases result
        rfl
  · cases result
    cases value with
    | array items => exact absurd rfl (noArray items)
    | _ => rfl
  · cases impossible

end Ferry
