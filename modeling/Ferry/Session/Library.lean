import Ferry.Engine.State

/-!
# Libraries

The shared libraries that functions can be taken from, the symbols that they export, and what the
functions behind those symbols do.
-/

namespace Ferry

inductive LibraryFunction where
  | strlen | strdup | abs | labs | toupper | fabs | floor
deriving DecidableEq, Repr, Inhabited

namespace LibraryFunction

def all : List LibraryFunction := [strlen, strdup, abs, labs, toupper, fabs, floor]

def symbol : LibraryFunction → String
  | strlen => "strlen"
  | strdup => "strdup"
  | abs => "abs"
  | labs => "labs"
  | toupper => "toupper"
  | fabs => "fabs"
  | floor => "floor"

def address : LibraryFunction → UInt64
  | strlen => 0x5d0c3a002000
  | strdup => 0x5d0c3a002010
  | abs => 0x5d0c3a002020
  | labs => 0x5d0c3a002030
  | toupper => 0x5d0c3a002040
  | fabs => 0x5d0c3a002050
  | floor => 0x5d0c3a002060

def at? (a : UInt64) : Option LibraryFunction :=
  all.find? (·.address == a)

def isMathematical : LibraryFunction → Bool
  | fabs | floor => true
  | _ => false

def floorDouble (x : Double) : Double :=
  match x.unpack with
  | .finite negative m e =>
    if m = 0 ∨ 0 ≤ e then x
    else
      let unit := pow2 (-e).toNat
      let whole := if negative then (m + unit - 1) / unit else m / unit
      ⟨UInt64.ofNat (BinaryFormat.double.round negative whole 0)⟩
  | _ => x

def wordArgument (arguments : List (NativeType × Slot)) : Slot :=
  match arguments.find? fun (t, _) => !t.isFloat && t != .void with
  | some (t, slot) => slot.extend t
  | none => .zero

def floatArgument (arguments : List (NativeType × Slot)) : Slot :=
  match arguments.find? (·.1.isFloat) with
  | some (t, slot) => slot.extend t
  | none => .zero

/-- The capital of a letter. Other characters stay; one that was given as a negative number, which only
the number for no character stays, becomes the byte that it stands for. -/
def upperCase (c : Int) : Int :=
  if 97 ≤ c ∧ c ≤ 122 then c - 32
  else if -128 ≤ c ∧ c ≤ -2 then c + 256
  else c

def run (f : LibraryFunction) (arguments : List (NativeType × Slot)) : EngineM Slot := do
  let word := wordArgument arguments
  let number : Double := ⟨(floatArgument arguments).bits⟩
  match f with
  | strlen => return .ofNat ((← get).memory.text word.address).length
  | strdup =>
    let bytes := (← get).memory.text word.address
    let copy ← EngineM.reserve (bytes.length + 1)
    EngineM.writeBytes copy bytes
    return .ofAddress copy
  | abs => return (Slot.ofInt (word.integer .i32).natAbs).narrow .i32
  | labs => return .ofInt (word.integer .i64).natAbs
  | toupper => return (Slot.ofInt (upperCase (word.integer .i32))).narrow .i32
  | fabs => return .ofNat (number.bits.toNat % 0x8000000000000000)
  | floor => return ⟨(floorDouble number).bits⟩

end LibraryFunction

namespace Library

def names : List String :=
  ["libc.so.6", "libm.so.6", "", "libpthread.so.0", "libdl.so.2", "librt.so.1", "libutil.so.1",
   "libgcc_s.so.1"]

/-- The function under a symbol of a library. Each library depends on the C library, so its symbols are
found in every one. -/
def find? (library symbol : String) : Option LibraryFunction :=
  (LibraryFunction.all.find? (·.symbol == symbol)).filter fun f =>
    library == "libm.so.6" || !f.isMathematical

theorem address_ne_zero (f : LibraryFunction) : f.address ≠ 0 := by
  cases f <;> decide

/-- The platform of a session. Code can be made for callbacks of every signature. -/
def platform : Platform where
  loads := names.contains
  find? library symbol := (find? library symbol).map (·.address)
  prepares _ := true
  find?_ne_zero library symbol := by
    rw [Ne, Option.map_eq_some_iff]
    rintro ⟨f, -, null⟩
    exact address_ne_zero f null

end Library

end Ferry
