import Ferry.Proofs.Marshal.ReadingBack
import Ferry.Proofs.Native.Words

/-!
# Element counts in slots

An element count goes through a slot of an integer type unchanged if the type has room for it, and is refused otherwise.
What a slot says is what its bits denote, by the width and the signedness of the type: `Ty.carriesCounts`.
-/

set_option autoImplicit false

namespace Ferry

namespace NativeType

def integers : List NativeType := [.i8, .u8, .i16, .u16, .i32, .u32, .i64, .u64]

theorem isInteger_iff {t : NativeType} : t.isInteger = true ↔ t ∈ integers := by
  cases t <;> decide

def magnitude (t : NativeType) : Nat :=
  if t.isSigned then t.width - 1 else t.width

theorem holds_natCast (t : NativeType) (n : Nat) : t.holds n = true ↔ t ∈ integers ∧ n < 2 ^ t.magnitude := by
  cases t with
  | i8 | u8 | i16 | u16 | i32 | u32 | i64 | u64 =>
      simp only [holds, range?, integers, magnitude, isSigned, width, size, List.mem_cons, reduceCtorEq, Bool.and_eq_true,
        decide_eq_true_eq, true_or, or_true, true_and, if_true, Bool.false_eq_true, if_false]
      omega
  | _ => simp [holds, range?, integers]

end NativeType

variable {type : Ty} {slot : Slot} {count n : Nat} {s : Engine}

/-! ## From counts to slots -/

theorem encodeLength_ok_iff :
    (∃ slot, encodeLength count type = .ok slot) ↔ type.native ∈ NativeType.integers ∧ count < 2 ^ type.native.magnitude := by
  rw [← NativeType.holds_natCast, encodeLength, encodeInteger]
  split
  · rename_i held
    exact ⟨fun _ => held, fun _ => ⟨_, rfl⟩⟩
  · rename_i unheld
    constructor
    · rintro ⟨slot, encoded⟩
      split at encoded <;> cases encoded
    · intro held
      exact absurd held unheld

theorem encodeLength_refused (integral : type.native ∈ NativeType.integers) (large : 2 ^ type.native.magnitude ≤ count) :
    encodeLength count type = .error (.outOfRange count type) := by
  have unheld : ¬type.native.holds count = true := fun held => by
    have := ((NativeType.holds_natCast _ _).mp held).2
    omega
  rw [encodeLength, encodeInteger, if_neg unheld, if_pos (NativeType.isInteger_iff.mpr integral)]

/-! ## From slots to counts -/

theorem decodeLength_of_integer (integral : type.native ∈ NativeType.integers) (slot : Slot) (s : Engine) :
    ∃ v, v.integer? = some (slot.number type.native) ∧ decodeLength slot type s =
      (if 0 ≤ slot.number type.native then .ok (slot.number type.native).toNat else .error (.notALength v), s) := by
  obtain ⟨v, reads, integer, -⟩ := fromNative_integer (NativeType.isInteger_iff.mpr integral) slot .nothing s
  rw [Slot.integer_eq_number] at integer
  refine ⟨v, integer, ?_⟩
  rw [decodeLength, EngineM.failing_bind, reads]
  simp only [integer]
  split <;> rfl

theorem decodeLength_ok_iff :
    (decodeLength slot type s).1 = .ok n ↔ type.native ∈ NativeType.integers ∧ slot.number type.native = n := by
  have said : (decodeLength slot type s).1 = .ok n ↔ type.count? slot = some n := by
    rw [← decodeLength_count slot type s]
    cases (decodeLength slot type s).1 <;> simp [Except.toOption]
  rw [said, Ty.count?, Slot.integer_eq_number, ← NativeType.isInteger_iff]
  by_cases counts : type.native.isInteger = true ∧ 0 ≤ slot.number type.native
  · rw [if_pos counts, Option.some.injEq, and_iff_right counts.1]
    omega
  · rw [if_neg counts]
    constructor
    · intro impossible
      cases impossible
    · rintro ⟨integral, same⟩
      exact absurd ⟨integral, by omega⟩ counts

theorem decodeLength_other (other : type.native ∉ NativeType.integers) (slot : Slot) (s : Engine) :
    ∃ e, decodeLength slot type s = (.error e, s) := by
  have same := decodeLength_reads slot type s
  rcases read : decodeLength slot type s with ⟨r, s'⟩
  rw [read] at same
  cases same
  cases r with
  | error e => exact ⟨e, rfl⟩
  | ok n =>
      have said : (decodeLength slot type s').1 = .ok n := by rw [read]
      exact absurd (decodeLength_ok_iff.mp said).1 other

/-! ## Both ways -/

/-- Slots of the type carry element counts without loss, or refuse them. -/
structure Ty.CarriesCounts (type : Ty) : Prop where
  accepts : ∀ count, (∃ slot, encodeLength count type = .ok slot) ↔
    type.native ∈ NativeType.integers ∧ count < 2 ^ type.native.magnitude
  refuses : ∀ count, type.native ∈ NativeType.integers → 2 ^ type.native.magnitude ≤ count →
    encodeLength count type = .error (.outOfRange count type)
  returns : ∀ count slot s, encodeLength count type = .ok slot → decodeLength slot type s = (.ok count, s)
  denotes : ∀ slot s n, (decodeLength slot type s).1 = .ok n ↔
    type.native ∈ NativeType.integers ∧ slot.number type.native = n
  negative : ∀ slot s, type.native ∈ NativeType.integers → slot.number type.native < 0 →
    ∃ v, v.integer? = some (slot.number type.native) ∧ decodeLength slot type s = (.error (.notALength v), s)
  other : ∀ slot s, type.native ∉ NativeType.integers → ∃ e, decodeLength slot type s = (.error e, s)

/-- Every type carries element counts without loss, or refuses them. -/
theorem Ty.carriesCounts (type : Ty) : type.CarriesCounts where
  accepts count := encodeLength_ok_iff
  refuses count := encodeLength_refused
  returns count slot s encoded := by
    have number : slot.number type.native = count := by
      rw [← Slot.integer_eq_number]
      exact integer_encodeInteger encoded
    obtain ⟨v, -, reads⟩ := decodeLength_of_integer (encodeLength_ok_iff.mp ⟨slot, encoded⟩).1 slot s
    rw [reads, number, if_pos (Int.natCast_nonneg count), Int.toNat_natCast]
  denotes slot s n := decodeLength_ok_iff
  negative slot s integral below := by
    obtain ⟨v, integer, reads⟩ := decodeLength_of_integer integral slot s
    rw [if_neg (Int.not_le.mpr below)] at reads
    exact ⟨v, integer, reads⟩
  other slot s other := decodeLength_other other slot s

/-- The largest count of a signed byte comes back and the next one is refused. Whatever is above the byte, it is read with its
sign, and a floating-point slot says no count. -/
theorem Ty.carriesCounts_byte :
    (∃ slot, encodeLength 127 .int8 = .ok slot ∧ ∀ s, decodeLength slot .int8 s = (.ok 127, s)) ∧
      encodeLength 128 .int8 = .error (.outOfRange 128 .int8) ∧
      (decodeLength ⟨0xABCDEF000000007F⟩ .int8 .initial).1 = .ok 127 ∧
      (∃ v, v.integer? = some (-128) ∧ decodeLength ⟨0x80⟩ .int8 .initial = (.error (.notALength v), .initial)) ∧
      ∃ e, decodeLength ⟨1⟩ .float .initial = (.error e, .initial) := by
  have byte := Ty.carriesCounts .int8
  obtain ⟨slot, encoded⟩ := (byte.accepts 127).mpr (by decide)
  have lowest : Slot.number .i8 ⟨0x80⟩ = -128 := by decide
  have refused := byte.negative ⟨0x80⟩ .initial (by decide) (by decide)
  exact ⟨⟨slot, encoded, fun s => byte.returns 127 slot s encoded⟩, byte.refuses 128 (by decide) (by decide),
    (byte.denotes _ _ 127).mpr (by decide), by rwa [← lowest], (Ty.carriesCounts .float).other _ _ (by decide)⟩

end Ferry
