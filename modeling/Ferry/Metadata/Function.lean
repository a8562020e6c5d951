import Ferry.Metadata.Type
import Ferry.Metadata.Dispatch

/-!
# Function descriptors

A descriptor is a signature together with what is needed to reach the native code behind it.
-/

namespace Ferry

inductive Entry where
  | address (a : UInt64)
  | symbol (library : String)
  | dispatched
deriving DecidableEq, Repr, Inhabited

structure Descriptor where
  signature : Signature
  symbol : String
  receiver : Option Ty
  isConstructor : Bool
  entry : Entry
deriving Inhabited

namespace Descriptor

def name (d : Descriptor) : String := d.signature.name

def params (d : Descriptor) : List Param := d.signature.params

def isMethod (d : Descriptor) : Bool :=
  d.receiver.isSome && !d.isConstructor

/-- The type that the receiver is converted with. -/
def container (d : Descriptor) : Ty :=
  d.receiver.getD .pointer

end Descriptor

/-- A descriptor with the identity it is kept under: two descriptors with equal contents differ. -/
structure DescriptorRef where
  id : Nat
  descriptor : Descriptor
deriving Inhabited

end Ferry
