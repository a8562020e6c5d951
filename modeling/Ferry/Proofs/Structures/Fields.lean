import Ferry.Boxed
import Ferry.Proofs.Memory.Bytes

/-!
# Fields of a structure

An access to a field is admitted by where the field ends, and the end is a machine word. It is exact as long as it
does not wrap around: then an access that is admitted stays inside of the structure, and any other is refused and
leaves the engine as it was. An end that wraps around to a place in the structure is admitted as well
(`Boxed.Astray`), and only then the access begins before the structure.
-/

set_option autoImplicit false

namespace Ferry

/-! ## Accesses -/

namespace Boxed

variable {b : Boxed} {offset : UInt64} {width : Nat} {m : Memory} {s : Engine}

/-- The field lies in the structure. -/
def Contains (b : Boxed) (offset : UInt64) (width : Nat) : Prop :=
  offset.toNat + width ≤ b.layout.size

/-- The field does not lie in the structure, but its end wraps around to a place there. -/
def Astray (b : Boxed) (offset : UInt64) (width : Nat) : Prop :=
  b.layout.size < offset.toNat + width ∧ (offset.toNat + width) % 2 ^ 64 ≤ b.layout.size

instance (b : Boxed) (offset : UInt64) (width : Nat) : Decidable (b.Contains offset width) :=
  inferInstanceAs (Decidable (_ ≤ _))

instance (b : Boxed) (offset : UInt64) (width : Nat) : Decidable (b.Astray offset width) :=
  inferInstanceAs (Decidable (_ ∧ _))

theorem admits_iff : b.admits offset width = true ↔ b.Contains offset width ∨ b.Astray offset width := by
  have := Nat.mod_le (offset.toNat + width) (2 ^ 64)
  simp only [admits, decide_eq_true_eq, Contains, Astray]
  omega

theorem admits_of_contains (inside : b.Contains offset width) : b.admits offset width = true :=
  admits_iff.mpr (Or.inl inside)

theorem not_astray_of_lt (word : offset.toNat + width < 2 ^ 64) : ¬b.Astray offset width := by
  rintro ⟨outside, wrapped⟩
  rw [Nat.mod_eq_of_lt word] at wrapped
  omega

theorem Astray.before (astray : b.Astray offset width) (room : 2 ^ 64 - offset.toNat ≤ b.address.toNat) :
    (b.address + offset).toNat < b.address.toNat ∧ b.address.toNat ≤ (b.address + offset).toNat + width := by
  have wraps : 2 ^ 64 ≤ offset.toNat + width := by
    by_contra word
    exact not_astray_of_lt (Nat.lt_of_not_le word) astray
  have := offset.toNat_lt
  have := b.address.toNat_lt
  rw [UInt64.toNat_add]
  omega

theorem readBytes?_refused (refused : b.admits offset width = false) (s : Engine) :
    b.readBytes? offset width s = (none, s) := by
  simp only [readBytes?, refused]
  rfl

theorem writeBytes?_refused {bytes : List UInt8} (refused : b.admits offset bytes.length = false) (s : Engine) :
    b.writeBytes? offset bytes s = (false, s) := by
  simp only [writeBytes?, refused]
  rfl

theorem readBytes?_admitted (admitted : b.admits offset width = true) (s : Engine) :
    b.readBytes? offset width s = (some (s.memory.read (b.address + offset) width), s) := by
  simp only [readBytes?, admitted]
  rfl

theorem writeBytes?_admitted {bytes : List UInt8} (admitted : b.admits offset bytes.length = true) (s : Engine) :
    b.writeBytes? offset bytes s = (true, { s with memory := s.memory.write (b.address + offset) bytes }) := by
  simp only [writeBytes?, admitted]
  rfl

theorem read?_eq (b : Boxed) (t : NativeType) (offset : UInt64) (s : Engine) :
    b.read? t offset s =
      ((b.readBytes? offset t.size s).1.map Slot.ofBytes, (b.readBytes? offset t.size s).2) := rfl

/-! ## Structures in a chunk -/

/-- The structure lies in one chunk of memory. -/
def LiesIn (b : Boxed) (m : Memory) : Prop :=
  ∃ c ∈ m.chunks, c.base ≤ b.address.toNat ∧ b.address.toNat + b.layout.size ≤ c.base + c.capacity

/-- The bytes of the structure. -/
def bytes (b : Boxed) (m : Memory) : List UInt8 :=
  m.read b.address b.layout.size

theorem toNat_field (lies : b.LiesIn m) (inside : b.Contains offset width) :
    (b.address + offset).toNat = b.address.toNat + offset.toNat := by
  obtain ⟨c, hc, -, fits⟩ := lies
  have := Memory.chunk_end_le hc
  have := m.frontier_lt
  unfold Contains at inside
  rw [UInt64.toNat_add]
  omega

theorem bytes_eq {c : Block} (hc : c ∈ m.chunks) (low : c.base ≤ b.address.toNat)
    (fits : b.address.toNat + b.layout.size ≤ c.base + c.capacity) :
    b.bytes m = c.slice (b.address.toNat - c.base) b.layout.size :=
  Memory.read_inside hc low fits

theorem read_field (lies : b.LiesIn m) (inside : b.Contains offset width) :
    m.read (b.address + offset) width = ((b.bytes m).drop offset.toNat).take width := by
  have field := toNat_field lies inside
  obtain ⟨c, hc, low, fits⟩ := lies
  unfold Contains at inside
  rw [bytes_eq hc low fits, Block.slice_drop, Block.slice_take _ _ _ _ (by omega),
    Memory.read_inside hc (by omega) (by omega), field, Nat.sub_add_comm low]

theorem bytes_write (lies : b.LiesIn m) {field : List UInt8} (inside : b.Contains offset field.length) :
    b.bytes (m.write (b.address + offset) field) =
      (b.bytes m).take offset.toNat ++ field ++ (b.bytes m).drop (offset.toNat + field.length) := by
  have place := toNat_field lies inside
  obtain ⟨c, hc, low, fits⟩ := lies
  unfold Contains at inside
  obtain ⟨rest, size⟩ := Nat.exists_eq_add_of_le inside
  have moved : c.write ((b.address + offset).toNat - c.base) field ∈ (m.write (b.address + offset) field).chunks :=
    Memory.mem_chunks_write hc (by omega) (by omega)
  have room : b.address.toNat - c.base + offset.toNat + field.length ≤ c.capacity := by omega
  rw [place, Nat.sub_add_comm low] at moved
  rw [bytes_eq hc low fits, bytes_eq moved (by simpa using low) (by simpa using fits), Block.base_write, size,
    Block.slice_append, Block.slice_append, Block.slice_write_self _ _ room,
    Block.slice_write_apart _ _ room (Or.inl (Nat.le_refl _)), Block.slice_write_apart _ _ room (Or.inr (by omega)),
    Block.slice_take _ _ _ _ (by omega), Block.slice_drop, Nat.add_sub_cancel_left]

end Boxed

end Ferry
