/-!
# Native scalar types

`NativeType` lists what one native argument or return value can be, with its size in bytes, its
alignment and, for the integers, the range it holds.
-/

namespace Ferry

inductive NativeType where
  | void | bool
  | i8 | u8 | i16 | u16 | i32 | u32 | i64 | u64
  | f32 | f64
  | pointer
  | string
deriving DecidableEq, Repr, Inhabited

namespace NativeType

/-- Bytes that a value of the type occupies; `void` occupies none. -/
def size : NativeType → Nat
  | void => 0
  | bool | i8 | u8 => 1
  | i16 | u16 => 2
  | i32 | u32 | f32 => 4
  | i64 | u64 | f64 | pointer | string => 8

theorem size_le_word (t : NativeType) : t.size ≤ 8 := by
  cases t <;> decide

def align (t : NativeType) : Nat :=
  max t.size 1

/-- The smallest and the largest value of an integer type; no other type has a range. -/
def range? : NativeType → Option (Int × Int)
  | i8 => some (-128, 127)
  | u8 => some (0, 255)
  | i16 => some (-32768, 32767)
  | u16 => some (0, 65535)
  | i32 => some (-2147483648, 2147483647)
  | u32 => some (0, 4294967295)
  | i64 => some (-9223372036854775808, 9223372036854775807)
  | u64 => some (0, 18446744073709551615)
  | _ => none

def isInteger (t : NativeType) : Bool :=
  t.range?.isSome

def isFloat : NativeType → Bool
  | f32 | f64 => true
  | _ => false

/-- Types that are extended to a whole word on the way back to native code. -/
def isExtended (t : NativeType) : Bool :=
  t.isInteger || t == .bool

def isSigned : NativeType → Bool
  | i8 | i16 | i32 | i64 => true
  | _ => false

def isAddress : NativeType → Bool
  | pointer | string => true
  | _ => false

def holds (t : NativeType) (v : Int) : Bool :=
  match t.range? with
  | some (low, high) => decide (low ≤ v) && decide (v ≤ high)
  | none => false

def name : NativeType → String
  | void => "void"
  | bool => "bool"
  | i8 => "i8"
  | u8 => "u8"
  | i16 => "i16"
  | u16 => "u16"
  | i32 => "i32"
  | u32 => "u32"
  | i64 => "i64"
  | u64 => "u64"
  | f32 => "f32"
  | f64 => "f64"
  | pointer => "pointer"
  | string => "string"

end NativeType

end Ferry
