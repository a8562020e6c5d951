/-!
# Hexadecimal text

Numbers and bytes in lower-case base sixteen.
-/

namespace Ferry

namespace Hex

def digit (n : Nat) : Char :=
  if n < 10 then Char.ofNat (48 + n) else Char.ofNat (87 + n)

def digits : Nat → Nat → List Char
  | 0, _ => []
  | n + 1, v => digits n (v / 16) ++ [digit (v % 16)]

/-- How many digits `v` needs; zero needs one. -/
def width (v : Nat) : Nat :=
  Nat.log2 v / 4 + 1

def ofNat (v : Nat) : String :=
  String.ofList (digits (width v) v)

def padded (n v : Nat) : String :=
  String.ofList (digits n v)

def ofBytes (bytes : List UInt8) : String :=
  String.ofList (bytes.flatMap fun b => digits 2 b.toNat)

def value? (c : Char) : Option Nat :=
  if '0' ≤ c ∧ c ≤ '9' then some (c.toNat - 48)
  else if 'a' ≤ c ∧ c ≤ 'f' then some (c.toNat - 87)
  else if 'A' ≤ c ∧ c ≤ 'F' then some (c.toNat - 55)
  else none

def toNat? (digits : List Char) : Option Nat :=
  digits.foldlM (fun total c => (value? c).map (16 * total + ·)) 0

/-- Pairs of digits as bytes; refuses a lone digit and any other character. -/
def toBytes? : List Char → Option (List UInt8)
  | [] => some []
  | high :: low :: rest => do
    let h ← value? high
    let l ← value? low
    let tail ← toBytes? rest
    return UInt8.ofNat (16 * h + l) :: tail
  | _ => none

end Hex

end Ferry
