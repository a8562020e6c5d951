import Ferry.Metadata.Function

/-!
# Call plans

A plan says once and for all how a function is called: what the caller supplies for each parameter,
which parameters the engine fills by itself, and which native types make up the call.
-/

namespace Ferry

/-- How a formal parameter is handled. -/
inductive Handling where
  | normal
  | hidden
  | array (length : Nat)
  | callback (closure destroy : Option Nat) (scope : Scope)
deriving DecidableEq, Repr, Inhabited

structure Parameter where
  index : Nat
  param : Param
  handling : Handling
  position : Option Nat
deriving Inhabited

namespace Parameter

def name (p : Parameter) : String := p.param.name

def type (p : Parameter) : Ty := p.param.type

def direction (p : Parameter) : Direction := p.param.direction

def transfer (p : Parameter) : Transfer := p.param.transfer

def nullable (p : Parameter) : Bool := p.param.nullable

def callerAllocates (p : Parameter) : Bool := p.param.callerAllocates

def isHidden (p : Parameter) : Bool :=
  p.handling = .hidden

/-- What native code is passed: an address for anything that it may write. -/
def native (p : Parameter) : NativeType :=
  if p.direction.isOut then .pointer else p.type.native

end Parameter

/-- The native side of a call: where the code is and what it is passed. -/
structure NativeSignature where
  address : UInt64
  result : NativeType
  arguments : List NativeType
deriving DecidableEq, Repr, Inhabited

structure Plan where
  id : Nat
  source : DescriptorRef
  parameters : List Parameter
  inputs : Nat
  outputs : Nat
  isMethod : Bool
  canThrow : Bool
  resultLength : Option Nat
  native : NativeSignature
deriving Inhabited

namespace Plan

def signature (p : Plan) : Signature := p.source.descriptor.signature

def name (p : Plan) : String := p.signature.name

/-- Slots of a call: receiver, parameters and failure report. -/
def slotCount (p : Plan) : Nat :=
  p.parameters.length + p.isMethod.toNat + p.canThrow.toNat

def parameter? (p : Plan) (index : Nat) : Option Parameter :=
  p.parameters[index]?

end Plan

end Ferry
