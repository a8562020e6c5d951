import Ferry.Plan.Basic
import Ferry.Trace.Log

/-!
# Callables and callbacks

A callable is what a caller hands over to be called: a function of the host, or a native function.
It lives as long as somebody holds it. A callback is the native face of a callable: a code address
that native code can call, with a token that identifies it.
-/

namespace Ferry

/-- A native function bound to its descriptor. The plan is compiled on first use and then kept. -/
structure NativeFunction where
  source : DescriptorRef
  plan : Option Plan
  implementor : Option String
deriving Inhabited

namespace NativeFunction

def name (f : NativeFunction) : String := f.source.descriptor.symbol

def arity (f : NativeFunction) : Nat := f.source.descriptor.params.length

def isVirtual (f : NativeFunction) : Bool := f.implementor.isSome

/-- Takes its receiver first when it is called as a callable. -/
def takesReceiver (f : NativeFunction) : Bool :=
  f.source.descriptor.isMethod || f.isVirtual

def describe (f : NativeFunction) : String :=
  "NativeFunction \x7b name: " ++ Quoted.write f.name ++ ", arity: " ++ toString f.arity ++
    ", implementor: " ++ LogEntry.implementorText f.implementor ++ " \x7d"

end NativeFunction

inductive CallableBody where
  | native (function : Nat)
  | host
deriving DecidableEq, Repr, Inhabited

/-- A callable with the number of those who hold it. -/
structure Callable where
  id : Nat
  name : String
  holders : Nat
  body : CallableBody
deriving DecidableEq, Repr, Inhabited

structure Callback where
  serial : Nat
  token : UInt64
  code : UInt64
  callable : Nat
  signature : Signature
  scope : Scope
deriving Inhabited

namespace Callback

def isDurable (c : Callback) : Bool := c.scope = .durable

def tokenName (c : Callback) : String := "c" ++ toString c.serial

def describe (c : Callback) : String :=
  "Callback \x7b info: " ++ Quoted.write c.signature.qualifiedName ++ ", token: " ++ c.tokenName ++
    ", scope: " ++ (if c.isDurable then "Durable" else "Call") ++ " \x7d"

end Callback

end Ferry
