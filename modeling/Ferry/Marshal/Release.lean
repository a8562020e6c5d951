import Ferry.Marshal.Array

/-!
# Releasing native values

`freeValue` releases what a slot of a given type refers to, as deep as it is told. Opaque pointers,
callbacks and structures that the engine borrowed from a caller are never released, and the null
address never is.
-/

namespace Ferry

def forElements (act : Slot → EngineM Unit) (t : NativeType) (base : UInt64) :
    (index count : Nat) → EngineM Unit
  | _, 0 => pure ()
  | index, count + 1 => do
    act (← EngineM.load t (elementAddress base t index))
    forElements act t base (index + 1) count

/-- Releases an array whose elements are released by `freeElement`. Without a usable length only the
container can be released. -/
def freeArrayWith (freeElement : Slot → EngineM Unit) (element : Ty) (length : ArrayLength)
    (slot : Slot) (known : Option Nat) (depth : ReleaseDepth) (origin : Origin) : EngineM Unit := do
  if slot.isNull || depth == .none then return
  if depth.coversElements && element.isPointerLike then
    match (← get).memory.arrayLength? element length slot.address known with
    | some count => forElements freeElement element.native slot.address 0 count
    | none => pure ()
  if depth.coversContainer then
    EngineM.release slot.address (origin == .engine)

def freeValue : Ty → Slot → ReleaseDepth → Origin → EngineM Unit
  | .utf8, slot, depth, origin =>
    if !slot.isNull && depth.coversContainer then
      EngineM.release slot.address (origin == .engine)
    else pure ()
  | .struct _, slot, depth, origin =>
    if !slot.isNull && depth.coversContainer && origin == .native then
      EngineM.release slot.address false
    else pure ()
  | .array element length, slot, depth, origin =>
    freeArrayWith (fun s => freeValue element s .full origin) element length slot none depth origin
  | _, _, _, _ => pure ()

def freeArray (element : Ty) (length : ArrayLength) (slot : Slot) (known : Option Nat)
    (depth : ReleaseDepth) (origin : Origin) : EngineM Unit :=
  freeArrayWith (fun s => freeValue element s .full origin) element length slot known depth origin

end Ferry
