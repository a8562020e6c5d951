import Ferry.Native.Type

/-!
# Scripts

Native code is written as a script: a list of actions on memory, on the failure slot and on code
addresses. An expression gives the 64 bits of a word.
-/

namespace Ferry

inductive Expr where
  | literal (i : Int)
  | argument (index : Nat)
  | index
  | load (t : NativeType) (address : Expr)
  | add (a b : Expr)
  | sub (a b : Expr)
  | mul (a b : Expr)
  | less (a b : Expr)
  | equal (a b : Expr)
  | block (name : String)
  | saved (name : String)
  | code (callback : String)
  | token (callback : String)
  | boxed (name : String)
  | notifier
deriving Repr, Inhabited

inductive Contents where
  | bytes (b : List UInt8)
  | zeros (size : Expr)
deriving Repr, Inhabited

inductive Action where
  | readValue (t : NativeType) (address : Expr)
  | readText (address : Expr)
  | readBytes (address count : Expr)
  | write (t : NativeType) (address value : Expr)
  | allocate (name : String) (contents : Contents)
  | free (address : Expr)
  | giveBack (value : Expr)
  | fail (address : Expr) (domain : UInt32) (code : Int32) (text : Option (List UInt8))
  /-- Releases the failure record stored at an address, and stores null there. -/
  | withdraw (address : Expr)
  | save (name : String) (value : Expr)
  | present (t : NativeType) (value : Expr)
  | call (code : Expr) (arguments : List (NativeType × Expr)) (result : NativeType) (name : Option String)
  | loop (count : Expr) (body : List Action)
  | branch (condition : Expr) (yes no : List Action)
deriving Inhabited

abbrev Script := List Action

end Ferry
