import Ferry.Native.Type

/-!
# Types, parameters and signatures

The description of a native callable: what each parameter and the return value is, in which
direction it travels, who owns it afterwards, and how the parameters of one signature refer to each
other (array lengths, user data and destroy notifiers of callbacks).
-/

namespace Ferry

inductive Direction where
  | input
  | output
  | both
deriving DecidableEq, Repr, Inhabited

namespace Direction

def isIn : Direction → Bool
  | input | both => true
  | output => false

def isOut : Direction → Bool
  | output | both => true
  | input => false

end Direction

/-- What changes hands: nothing, the container alone, or the container with every element. -/
inductive Transfer where
  | nothing
  | container
  | everything
deriving DecidableEq, Repr, Inhabited

/-- How long a callback stays callable: for one native call, or until it is given back. -/
inductive Scope where
  | call
  | durable
deriving DecidableEq, Repr, Inhabited

structure Layout where
  namespaceName : String
  name : String
  size : Nat
  align : Nat
deriving DecidableEq, Repr, Inhabited

def Layout.qualifiedName (l : Layout) : String :=
  l.namespaceName ++ "." ++ l.name

/-- Where the element count of an array comes from. -/
inductive ArrayLength where
  | parameter (index : Nat)
  | zeroTerminated
  | fixed (count : Nat)
deriving DecidableEq, Repr, Inhabited

def ArrayLength.parameter? : ArrayLength → Option Nat
  | parameter index => some index
  | _ => none

mutual

/-- The type of a parameter, of a return value or of an array element. -/
inductive Ty where
  | void | boolean
  | int8 | uint8 | int16 | uint16 | int32 | uint32 | int64 | uint64
  | float | double
  | utf8
  | pointer
  | array (element : Ty) (length : ArrayLength)
  | struct (layout : Layout)
  | callback (signature : Signature)
  | destroyNotify

structure Param where
  name : String
  type : Ty
  direction : Direction
  transfer : Transfer
  nullable : Bool
  callerAllocates : Bool
  closure : Option Nat
  destroy : Option Nat
  scope : Scope

structure Signature where
  namespaceName : String
  name : String
  params : List Param
  result : Ty
  resultTransfer : Transfer
  skipResult : Bool
  mayReturnNull : Bool
  canThrow : Bool

end

deriving instance BEq, Inhabited for Ty, Param, Signature

def Signature.qualifiedName (s : Signature) : String :=
  s.namespaceName ++ "." ++ s.name

namespace Ty

def native : Ty → NativeType
  | void => .void
  | boolean => .bool
  | int8 => .i8
  | uint8 => .u8
  | int16 => .i16
  | uint16 => .u16
  | int32 => .i32
  | uint32 => .u32
  | int64 => .i64
  | uint64 => .u64
  | float => .f32
  | double => .f64
  | utf8 => .string
  | pointer | array _ _ | struct _ | callback _ | destroyNotify => .pointer

def isVoid : Ty → Bool
  | void => true
  | _ => false

def isPointerLike (t : Ty) : Bool :=
  t.native.isAddress

def name : Ty → String
  | void => "void"
  | boolean => "boolean"
  | int8 => "int8"
  | uint8 => "uint8"
  | int16 => "int16"
  | uint16 => "uint16"
  | int32 => "int32"
  | uint32 => "uint32"
  | int64 => "int64"
  | uint64 => "uint64"
  | float => "float"
  | double => "double"
  | utf8 => "string"
  | pointer => "pointer"
  | array element _ => "array of " ++ element.name
  | struct layout => layout.qualifiedName
  | callback signature => "callback " ++ signature.qualifiedName
  | destroyNotify => "destroy notify"

/-- Bytes that a value occupies where it is stored in place: a structure counts with its layout. -/
def inlineSize : Ty → Nat
  | struct layout => layout.size
  | t => t.native.size

def lengthIndex? : Ty → Option Nat
  | array _ length => length.parameter?
  | _ => none

def zeroTerminated? : Ty → Option Bool
  | array _ length => some (length == .zeroTerminated)
  | _ => none

def elementSize (element : Ty) : Nat :=
  element.native.size

end Ty

def Signature.skipsResult (s : Signature) : Bool :=
  s.result.isVoid || s.skipResult

end Ferry
