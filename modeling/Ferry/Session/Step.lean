import Ferry.Session.Basic
import Ferry.Settings.Toml

/-!
# Steps of a session

What a session can do, what it is answered, and how a step can fail.
-/

namespace Ferry

inductive CodeSource where
  | script
  | null
  | dispatched
  | library (name : String)
deriving DecidableEq, Repr, Inhabited

/-- A dispatch table in which an entry may stand for the code of the function that is defined. -/
structure TableDraft where
  typeName : String
  slots : List (String × Option UInt64)
deriving Repr, Inhabited

namespace TableDraft

def complete (code : UInt64) (t : TableDraft) : DispatchTable :=
  ⟨t.typeName, t.slots.map fun (name, a) => (name, a.getD code)⟩

end TableDraft

inductive Step where
  | define (name : String) (descriptor : Descriptor) (source : CodeSource) (script : Script)
      (tables : Option (List TableDraft))
  | call (function : String) (receiver : Option Literal) (arguments : List Literal) (keep : Option String)
  | plan (function : String)
  | planTwice (function : String)
  | wrap (function callable : String)
  | apply (callable : String) (arguments : List Literal) (keep : Option String)
  | host (name : String) (behaviours : List Behaviour)
  | alive (name : String)
  | callback (name callable : String) (signature : Signature) (scope : Scope)
  | boxed (name : String) (layout : Layout) (bytes : List UInt8)
  | look (name : String)
  | drop (name : String)
  | script (s : Script)
  | notify (token : Expr)
  | counts
  | clearPlans
  | cleanup (announced : Bool)
  | configure (typeCheck cachePlans logCalls : Option Bool)
  | active
  | restart (document : Option String)
deriving Inhabited

inductive Reply where
  | nothing
  | value (v : ValueView)
  | name (s : String)
  | truth (b : Bool)
  | number (n : Nat)
  | defined (f : NativeFunction)
  | plan (p : Plan)
  | shared (same : Bool)
  | callback (c : Callback)
  | counts (plans durable : Nat)
  | settings (c : Config)
  | initialized (active : Config)
deriving Inhabited

inductive StepError where
  | invoke (e : InvokeError)
  | load (e : LoadError)
  | panic (text : String)
  | settings (e : ConfigError)
  | unknownName (name : String)
deriving Inhabited

/-- A call that fails makes its step fail. -/
def StepError.ofFailure : InvokeFailure → StepError
  | .error e => .invoke e
  | .panic text => .panic text

end Ferry
