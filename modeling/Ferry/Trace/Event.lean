import Ferry.Memory.Block
import Ferry.Number.Double
import Ferry.Trace.Log

/-!
# Events

What an observer of the engine sees, in order. Addresses are shown by the block they lie in, as it is
at that moment, so an event holds views and not addresses.
-/

namespace Ferry

inductive AddressView where
  | null
  | small (n : Nat)
  | notifier
  | token (callback : Nat)
  | inside (label : String) (offset : Nat)
  | unknown
deriving DecidableEq, Repr, Inhabited

inductive NativeView where
  | nothing
  | integer (i : Int)
  | single (pattern : UInt32)
  | double (x : Double)
  | address (a : AddressView)
deriving DecidableEq, Repr, Inhabited

inductive ValueView where
  | undefined
  | null
  | boolean (b : Bool)
  | int (i : Int)
  | uint (n : Nat)
  | number (x : Double)
  | string (s : String)
  | array (items : List ValueView)
  | boxed (name : String) (owned : Bool) (location : AddressView) (bytes : Option (List UInt8))
  | pointer (a : AddressView)
  | function (name : String)
deriving Repr, Inhabited

/-- The stages of a conversion there and back. -/
inductive Phase where
  | toNative
  | fromNative
  | free
deriving DecidableEq, Repr, Inhabited

inductive Event where
  | allocated (base : UInt64) (label : Label) (size : Nat)
  | released (base : UInt64) (label : Option Label)
  | callbackCreated (serial : Nat) (name : String)
  | callbackDestroyed (serial : Nat) (name : String)
  | logged (entry : LogEntry)
  | entered (function : String) (arguments : List NativeView)
  | hosted (callable : String) (arguments : List ValueView)
  | readValue (v : NativeView)
  | readText (bytes : Option (List UInt8))
  | readBytes (bytes : List UInt8)
  | shown (v : NativeView)
  | returned (v : NativeView)
  | phase (p : Phase)
deriving Repr, Inhabited

end Ferry
