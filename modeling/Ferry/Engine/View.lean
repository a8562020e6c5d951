import Ferry.Engine.State

/-!
# How values are shown

The views of addresses, native values and caller values that events hold.
-/

namespace Ferry

namespace Engine

def viewAddress (s : Engine) (a : UInt64) : AddressView :=
  if a = 0 then .null
  else if a.toNat < Memory.lowest then .small a.toNat
  else if a = notifier then .notifier
  else
    match s.callbacks.find? (·.token == a) with
    | some c => .token c.serial
    | none =>
      match s.memory.locate? a with
      | some (b, offset) => b.label.text?.elim .unknown (.inside · offset)
      | none => .unknown

def viewNative (s : Engine) (t : NativeType) (slot : Slot) : NativeView :=
  match t with
  | .void => .nothing
  | .f32 => .single (UInt32.ofNat (slot.payload .f32))
  | .f64 => .double ⟨slot.bits⟩
  | .pointer | .string => .address (s.viewAddress slot.address)
  | _ => .integer (slot.integer t)

/-- The bytes of a structure, if they lie in a live block that has a name. -/
def viewBytes (s : Engine) (a : UInt64) (size : Nat) : Option (List UInt8) :=
  match s.memory.locate? a with
  | some (b, offset) =>
    if b.label.text?.isSome && decide (offset + size ≤ b.size) then some (b.slice offset size) else none
  | none => none

mutual

def viewValue (s : Engine) : Value → ValueView
  | .undefined => .undefined
  | .null => .null
  | .boolean b => .boolean b
  | .int i => .int i.toInt
  | .uint u => .uint u.toNat
  | .number x => .number x
  | .string t => .string t
  | .array items => .array (viewValues s items)
  | .boxed b =>
    .boxed b.layout.qualifiedName b.owned (s.viewAddress b.address) (s.viewBytes b.address b.layout.size)
  | .pointer a => .pointer (s.viewAddress a)
  | .function f => .function f.name

def viewValues (s : Engine) : List Value → List ValueView
  | [] => []
  | v :: rest => viewValue s v :: viewValues s rest

end

end Engine

end Ferry
