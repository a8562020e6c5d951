import Ferry.Call.Host
import Ferry.Script.Basic

/-!
# Sessions

A session is a caller that does one step after the other: it defines native functions by scripts, makes
callables, callbacks and structures under names of its own, and calls what it has named.
-/

namespace Ferry

/-- A value as a session writes it down. Names stand for what the session has under them at the moment
when the value is needed. -/
inductive Literal where
  | undefined
  | null
  | boolean (b : Bool)
  | int (i : Int64)
  | uint (u : UInt64)
  | ofUInt64 (u : UInt64)
  | number (x : Double)
  | string (s : String)
  | array (items : List Literal)
  | pointer (address : Expr)
  | boxed (name : String)
  | function (name : String)
deriving Inhabited

inductive Behaviour where
  | give (value : Literal)
  | argument (index : Nat)
  | arguments
  | fail (text : String)
  | panic (text : String)
  | invoke (function : String) (values : Option (List Literal))
  | script (s : Script)
deriving Inhabited

/-- A scripted native function: the code behind an entry address. -/
structure NativeCode where
  name : String
  script : Script
deriving Inhabited

structure HostCode where
  name : String
  behaviours : List Behaviour
  invocations : Nat
deriving Inhabited

/-- What the session keeps around the engine, each under its name. -/
structure World where
  natives : List (UInt64 × NativeCode)
  hosts : List (Nat × HostCode)
  remembered : List (String × Nat)
  functions : List (String × Nat)
  callables : List (String × FunctionRef)
  callbacks : List (String × Callback)
  structures : List (String × Boxed)
  saved : List (String × Slot)
  blocks : List (String × UInt64)
  libraries : List String
deriving Inhabited

def World.empty : World :=
  { natives := [], hosts := [], remembered := [], functions := [], callables := [], callbacks := []
    structures := [], saved := [], blocks := [], libraries := [] }

abbrev SessionM := Run World

namespace SessionM

def world : SessionM World :=
  return (← get).world

def modifyWorld (f : World → World) : SessionM Unit :=
  modify fun m => { m with world := f m.world }

end SessionM

def bindName (name : String) (a : α) (all : List (String × α)) : List (String × α) :=
  (name, a) :: all.filter (·.1 != name)

def unbindName (name : String) (all : List (String × α)) : List (String × α) :=
  all.filter (·.1 != name)

end Ferry
