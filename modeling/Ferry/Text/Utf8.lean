/-!
# Reading UTF-8

`Utf8.read` turns any bytes into text. A well-formed sequence gives its character; each longest
run of bytes that begins a sequence but cannot finish it gives one replacement character, and so
does each byte that begins none.
-/

namespace Ferry

namespace Utf8

def replacement : Char := '\uFFFD'

def within (low high : UInt8) (b : UInt8) : Bool :=
  decide (low ≤ b) && decide (b ≤ high)

def continues : UInt8 → Bool :=
  within 0x80 0xBF

/-- What the first byte of a longer sequence asks of the rest: the bounds of the second byte and how
many bytes follow after that one. -/
def lead? (b : UInt8) : Option (UInt8 × UInt8 × Nat) :=
  if within 0xC2 0xDF b then some (0x80, 0xBF, 0)
  else if b = 0xE0 then some (0xA0, 0xBF, 1)
  else if b = 0xED then some (0x80, 0x9F, 1)
  else if within 0xE1 0xEF b then some (0x80, 0xBF, 1)
  else if b = 0xF0 then some (0x90, 0xBF, 2)
  else if within 0xF1 0xF3 b then some (0x80, 0xBF, 2)
  else if b = 0xF4 then some (0x80, 0x8F, 2)
  else none

def low6 (b : UInt8) : Nat :=
  b.toNat % 64

/-- The character at the front of non-empty bytes, and how many bytes after the first belong to it. -/
def front (b : UInt8) (rest : List UInt8) : Char × Nat :=
  if b < 0x80 then (Char.ofNat b.toNat, 0)
  else
    match lead? b with
    | none => (replacement, 0)
    | some (low, high, more) =>
      match rest with
      | second :: rest =>
        if within low high second then
          let tail := (rest.take more).takeWhile continues
          if tail.length = more then
            let bits := b.toNat % (if more = 0 then 32 else if more = 1 then 16 else 8)
            let code := (second :: tail).foldl (fun total c => 64 * total + low6 c) bits
            (Char.ofNat code, 1 + more)
          else (replacement, 1 + tail.length)
        else (replacement, 0)
      | [] => (replacement, 0)

def chars : List UInt8 → List Char
  | [] => []
  | b :: rest =>
    let next := front b rest
    next.1 :: chars (rest.drop next.2)
termination_by bytes => bytes.length
decreasing_by
  simp only [List.length_cons, List.length_drop]
  omega

def read (bytes : List UInt8) : String :=
  String.ofList (chars bytes)

def write (s : String) : List UInt8 :=
  s.toUTF8.toList

end Utf8

end Ferry
