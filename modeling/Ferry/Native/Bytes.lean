/-!
# Little-endian bytes

A natural number as its low bytes, least significant first, and back, up to the number of bytes kept.
-/

namespace Ferry

namespace LittleEndian

/-- The `n` low bytes of `v`, least significant first. -/
def encode : Nat → Nat → List UInt8
  | 0, _ => []
  | n + 1, v => UInt8.ofNat v :: encode n (v / 256)

/-- The number whose bytes are given, least significant first. -/
def decode : List UInt8 → Nat
  | [] => 0
  | b :: rest => b.toNat + 256 * decode rest

def bound : Nat → Nat
  | 0 => 1
  | n + 1 => 256 * bound n

@[simp] theorem length_encode (n v : Nat) : (encode n v).length = n := by
  induction n generalizing v with
  | zero => rfl
  | succ n ih => simp [encode, ih]

theorem bound_pos (n : Nat) : 0 < bound n := by
  induction n with
  | zero => simp [bound]
  | succ n ih => simp only [bound]; omega

theorem decode_encode (n v : Nat) : decode (encode n v) = v % bound n := by
  induction n generalizing v with
  | zero => simp [encode, decode, bound, Nat.mod_one]
  | succ n ih =>
    have hb : (UInt8.ofNat v).toNat = v % 256 := by simp
    rw [encode, decode, ih, hb, bound, Nat.mod_mul]

theorem decode_lt (bytes : List UInt8) : decode bytes < bound bytes.length := by
  induction bytes with
  | nil => simp [decode, bound]
  | cons b rest ih =>
    have hb := b.toNat_lt
    simp only [decode, List.length_cons, bound]
    omega

end LittleEndian

end Ferry
