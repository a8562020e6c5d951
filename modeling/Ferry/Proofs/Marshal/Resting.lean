import Mathlib.Data.List.Basic
import Ferry.Proofs.Marshal.Parts
import Ferry.Proofs.Memory.Evolution

/-!
# Values that read the same later

A value rests in its blocks if each of its arrays, and each array inside of one, has no more elements than its block has room
for. Such a value consists of the same blocks in every memory that has these blocks with what they hold, whatever else
happens there (`Ty.Rests.released_eq`).
-/

set_option autoImplicit false

namespace Ferry

/-- Every array of the value lies in a block that has room for its elements. Arrays are followed into memory. -/
def Ty.Rests (m : Memory) : Ty → Slot → Option Nat → Prop
  | .array element length, slot, known => slot.isNull = false → ∃ b ∈ m.chunks, b.address = slot.address ∧
      ∀ n, m.arrayLength? element length slot.address known = some n → n * element.native.size ≤ b.capacity ∧
        ∀ i < n, element.Rests m (m.load element.native (elementAddress slot.address element.native i)) none
  | _, _, _ => True

variable {m m' : Memory} {type element : Ty} {length : ArrayLength} {slot : Slot} {known : Option Nat} {origin : Origin}

theorem Ty.Rests.of_flat (flat : type.IsFlat) (m : Memory) (slot : Slot) (known : Option Nat) : type.Rests m slot known := by
  cases type with
  | array element length => exact absurd rfl (flat element length)
  | _ => trivial

theorem Block.element_start {b : Block} {t : NativeType} {n i : Nat} (room : n * t.size ≤ b.capacity) (before : i < n) :
    i * t.size < b.capacity := by
  rcases Nat.eq_zero_or_pos t.size with zero | positive
  · rw [zero]
    exact b.capacity_pos
  · have := Nat.mul_lt_mul_of_pos_right before positive
    omega

theorem Ty.Rests.elements_eq (rests : (Ty.array element length).Rests m slot known) (present : slot.isNull = false)
    (each : ∀ x, element.Rests m x none → (∀ b ∈ m.chunks, b.address ∈ element.parts m origin x → b ∈ m'.chunks) →
      element.parts m' origin x = element.parts m origin x)
    (container : ∀ b ∈ m.chunks, b.address = slot.address → b ∈ m'.chunks)
    (kept : ∀ b ∈ m.chunks, b.address ∈ m.elementParts (element.parts m origin) element length slot known → b ∈ m'.chunks) :
    m'.elementParts (element.parts m' origin) element length slot known =
      m.elementParts (element.parts m origin) element length slot known := by
  obtain ⟨b, hb, address, lies⟩ := rests present
  have hb' := container b hb address
  have reached : b.reaches slot.address.toNat = true := by
    rw [← address, Memory.toNat_address hb]
    exact b.reaches_base
  have counted : m'.arrayLength? element length slot.address known = m.arrayLength? element length slot.address known := by
    unfold Memory.arrayLength? Memory.terminatedLength Memory.terminator?
    rw [Memory.tail_eq hb reached, Memory.tail_eq hb' reached]
  unfold Memory.elementParts at kept ⊢
  rw [counted]
  cases count : m.arrayLength? element length slot.address known with
  | none => rfl
  | some n =>
      rw [count] at kept
      obtain ⟨room, inner⟩ := lies n count
      refine List.flatMap_congr fun i hi => ?_
      have before := List.mem_range.mp hi
      have inside := Block.element_start room before
      have same : m'.load element.native (elementAddress slot.address element.native i) =
          m.load element.native (elementAddress slot.address element.native i) := by
        rw [← address, Memory.load_element hb element.native inside, Memory.load_element hb' element.native inside]
      rw [same]
      exact each _ (inner i before) fun c hc listed => kept c hc (List.mem_flatMap.mpr ⟨i, hi, listed⟩)

theorem Ty.Rests.parts_eq (type : Ty) {slot : Slot} (rests : type.Rests m slot none)
    (kept : ∀ b ∈ m.chunks, b.address ∈ type.parts m origin slot → b ∈ m'.chunks) :
    type.parts m' origin slot = type.parts m origin slot := by
  cases shape : type with
  | array element length =>
      rw [shape] at rests kept
      cases null : slot.isNull with
      | true => rw [parts_null null, parts_null null]
      | false =>
          simp only [Ty.parts, null, Bool.false_eq_true, if_false, List.mem_append] at kept ⊢
          rw [rests.elements_eq null (fun x inner each => parts_eq element inner each)
            (fun b hb address => kept b hb (Or.inr (by simp [address]))) fun b hb listed => kept b hb (Or.inl listed)]
  | _ => rfl
termination_by type
decreasing_by simp [shape]; omega

theorem Ty.Rests.released_eq (rests : type.Rests m slot known)
    (kept : ∀ b ∈ m.chunks, b.address ∈ type.released m origin .full slot known → b ∈ m'.chunks) (depth : ReleaseDepth) :
    type.released m' origin depth slot known = type.released m origin depth slot known := by
  cases type with
  | array element length =>
      cases null : slot.isNull with
      | true => rw [released_null null, released_null null]
      | false =>
          simp only [Ty.released, null, Bool.false_eq_true, if_false, ReleaseDepth.coversElements,
            ReleaseDepth.coversContainer, if_true, List.mem_append] at kept ⊢
          rw [rests.elements_eq null (fun x inner each => inner.parts_eq element each)
            (fun b hb address => kept b hb (Or.inr (by simp [address]))) fun b hb listed => kept b hb (Or.inl listed)]
  | _ => rfl

end Ferry
