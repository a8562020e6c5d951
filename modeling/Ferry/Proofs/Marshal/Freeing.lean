import Ferry.Marshal.Release
import Ferry.Proofs.Engine.Ledger

/-!
# Releasing, element by element

The engine made the text that a slot refers to, and an array with the text in its elements. `Ty.owned` and
`Memory.ownedArray` list these blocks, as memory shows them. A null slot has nothing to release, and an array gives up
what its elements do, one after the other, and then itself.
-/

set_option autoImplicit false

namespace Ferry

/-- The blocks that a value of a type which is no array consists of. Structures are borrowed. -/
def Ty.owned : Ty → Slot → List UInt64
  | .utf8, slot => if slot.isNull then [] else [slot.address]
  | _, _ => []

/-- The blocks that an array consists of: those of its elements, and its own. -/
def Memory.ownedArray (m : Memory) (element : Ty) (length : ArrayLength) (slot : Slot) (known : Option Nat) :
    List UInt64 :=
  if slot.isNull then []
  else
    ((m.arrayLength? element length slot.address known).elim [] fun count =>
      (List.range count).flatMap fun i =>
        element.owned (m.load element.native (elementAddress slot.address element.native i))) ++ [slot.address]

/-- The type of an element is no array. -/
def Ty.IsFlat (type : Ty) : Prop :=
  ∀ element length, type ≠ .array element length

variable {s s' : Engine} {m m' : Memory} {element type : Ty} {length : ArrayLength} {slot : Slot} {known : Option Nat}
  {depth : ReleaseDepth} {origin : Origin}

theorem Ty.exists_of_not_flat (array : ¬type.IsFlat) : ∃ element length, type = .array element length := by
  simpa [Ty.IsFlat] using array

theorem owned_zero (type : Ty) : type.owned .zero = [] := by
  cases type <;> rfl

theorem owned_of_not_text (other : type ≠ .utf8) (slot : Slot) : type.owned slot = [] := by
  cases type with
  | utf8 => exact absurd rfl other
  | _ => rfl

/-! ## Nothing to release -/

theorem freeArray_null (null : slot.isNull = true) : freeArray element length slot known depth origin s = ((), s) := by
  simp only [freeArray, freeArrayWith, null, Bool.true_or, if_true]
  rfl

theorem freeValue_null (null : slot.isNull = true) : freeValue type slot depth origin s = ((), s) := by
  cases type with
  | array element length => exact freeArray_null null
  | _ =>
      simp only [freeValue, null, Bool.not_true, Bool.false_and, Bool.false_eq_true, if_false]
      rfl

/-! ## Element by element -/

theorem forElements_givesUp {act : Slot → EngineM Unit} {lost : Slot → List Resource}
    (each : ∀ (slot : Slot) (s : Engine), (∀ b, b ∈ s.memory.chunks ↔ b ∈ m.chunks) →
      s.GivesUp (lost slot) (act slot s).2) (t : NativeType) (base : UInt64) (index count : Nat) (s : Engine)
    (same : ∀ b, b ∈ s.memory.chunks ↔ b ∈ m.chunks) :
    s.GivesUp ((List.range' index count).flatMap fun i => lost (s.memory.load t (elementAddress base t i)))
      (forElements act t base index count s).2 := by
  induction count generalizing index s with
  | zero => exact .refl s
  | succ count ih =>
      have first := each (s.memory.load t (elementAddress base t index)) s same
      have rest := ih (index + 1) (act (s.memory.load t (elementAddress base t index)) s).2
        fun b => (first.chunks b).trans (same b)
      simp only [first.load_eq] at rest
      rw [List.range'_succ, List.flatMap_cons]
      exact first.trans rest

theorem freeArrayWith_eq {freeElement : Slot → EngineM Unit} (present : slot.isNull = false)
    (deep : (depth == .none) = false) (s : Engine) :
    (freeArrayWith freeElement element length slot known depth origin s).2 =
      ((if depth.coversContainer then EngineM.release slot.address (origin == .engine) else pure () : EngineM Unit)
        ((if depth.coversElements && element.isPointerLike then
          (s.memory.arrayLength? element length slot.address known).forM fun count =>
            forElements freeElement element.native slot.address 0 count
        else pure () : EngineM Unit) s).2).2 := by
  unfold freeArrayWith
  rw [if_neg (by simp [present, deep])]
  cases depth.coversElements && element.isPointerLike with
  | false => cases depth.coversContainer <;> rfl
  | true =>
      simp only [if_true]
      rw [EngineM.run_get]
      cases s.memory.arrayLength? element length slot.address known <;> cases depth.coversContainer <;> rfl

end Ferry
