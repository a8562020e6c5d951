import Ferry.Marshal.Basic

/-!
# Arrays in native memory

Where the elements of an array lie and how many there are. The count is what the caller of the
conversion knows, or else the fixed count of the type, or else the number of elements before the
terminator, which is an element of zeros.
-/

namespace Ferry

def byteSize? (count size : Nat) : Option Nat :=
  if count * size < 0x10000000000000000 then some (count * size) else none

theorem byteSize?_eq_some {count size bytes : Nat} :
    byteSize? count size = some bytes ↔ count * size < 0x10000000000000000 ∧ bytes = count * size := by
  unfold byteSize?
  split
  · rename_i fits
    simp only [Option.some.injEq, fits, true_and, eq_comm]
  · rename_i large
    simp only [large, false_and, reduceCtorEq]

theorem byteSize?_eq_none {count size : Nat} : byteSize? count size = none ↔ 0x10000000000000000 ≤ count * size := by
  unfold byteSize?
  split <;> simp_all

def elementAddress (base : UInt64) (t : NativeType) (index : Nat) : UInt64 :=
  base + UInt64.ofNat (index * t.size)

/-- The index of the first element of zeros in the bytes, if there is one. An element of size zero is
tested by the byte that it stands on. -/
def terminator? (size : Nat) : (fuel : Nat) → List UInt8 → Option Nat
  | 0, _ => none
  | fuel + 1, bytes =>
    let width := max size 1
    if bytes.length < width then none
    else if (bytes.take width).all (· == 0) then some 0
    else (terminator? size fuel (bytes.drop size)).map (· + 1)

namespace Memory

def terminator? (m : Memory) (t : NativeType) (base : UInt64) : Option Nat :=
  let bytes := m.tail base
  Ferry.terminator? t.size (bytes.length + 1) bytes

def terminatedLength (m : Memory) (t : NativeType) (base : UInt64) : Nat :=
  (m.terminator? t base).getD ((m.tail base).length / max t.size 1)

def arrayLength? (m : Memory) (element : Ty) (length : ArrayLength) (base : UInt64)
    (known : Option Nat) : Option Nat :=
  match known, length with
  | some n, _ => some n
  | none, .fixed n => some n
  | none, .zeroTerminated => some (m.terminatedLength element.native base)
  | none, .parameter _ => none

end Memory

/-- How many elements a new array has room for: a terminated one has one more than it has items, and a
fixed one has at least its fixed count. -/
def ArrayLength.capacity (length : ArrayLength) (items : Nat) : Nat :=
  match length with
  | .zeroTerminated => items + 1
  | .fixed n => max n items
  | .parameter _ => items

end Ferry
