import Ferry.Engine.View

/-!
# Native values in full

A native value together with the blocks that it refers to: the block of a text, and every element for which
the block of an array has room.
-/

namespace Ferry

inductive NativeDump where
  | value (v : NativeView)
  | text (label : String) (bytes : List UInt8)
  | array (label : String) (cells : List NativeDump)
deriving Inhabited

namespace Engine

def labelled? (s : Engine) (a : UInt64) : Option (String × Block) := do
  let block ← s.memory.block? a
  let label ← block.label.text?
  return (label, block)

/-- How many elements of a type a block has room for; of elements without a size it holds none. -/
def room (b : Block) (element : Ty) : Nat :=
  b.size / element.elementSize

def dump (s : Engine) : Ty → Slot → NativeDump
  | .utf8, slot =>
    match s.labelled? slot.address with
    | some (label, block) => .text label (block.slice 0 block.size)
    | none => .value (s.viewNative .string slot)
  | .array element _, slot =>
    match s.labelled? slot.address with
    | some (label, block) =>
      .array label ((List.range (room block element)).map fun i =>
        s.dump element (s.memory.load element.native (slot.address + UInt64.ofNat (i * element.elementSize))))
    | none => .value (s.viewNative .pointer slot)
  | type, slot => .value (s.viewNative type.native slot)

end Engine

end Ferry
