import Ferry.Metadata.Type
import Ferry.Number.Shortest
import Ferry.Text.Hex

/-!
# Caller values

The dynamically typed values that a caller passes to native functions and receives from them.
-/

namespace Ferry

/-- A handle to a structure in native memory. An owning handle keeps its block alive together with
the other owning handles of the same address; any other handle borrows. -/
structure Boxed where
  layout : Layout
  address : UInt64
  owned : Bool
deriving DecidableEq, Repr, Inhabited

structure FunctionRef where
  id : Nat
  name : String
deriving DecidableEq, Repr, Inhabited

inductive Value where
  | undefined
  | null
  | boolean (b : Bool)
  | int (i : Int64)
  | uint (u : UInt64)
  | number (x : Double)
  | string (s : String)
  | array (items : List Value)
  | boxed (b : Boxed)
  | pointer (a : UInt64)
  | function (f : FunctionRef)
deriving Inhabited

namespace Value

/-- An unsigned number, as a signed one where that range holds it. -/
def ofUInt64 (u : UInt64) : Value :=
  if u < 0x8000000000000000 then .int u.toInt64 else .uint u

def isNullish : Value → Bool
  | undefined | null => true
  | _ => false

def integer? : Value → Option Int
  | int i => some i.toInt
  | uint u => some u.toNat
  | _ => none

def int64? : Value → Option Int64
  | int i => some i
  | uint u => if u < 0x8000000000000000 then some u.toInt64 else none
  | _ => none

def array? : Value → Option (List Value)
  | array items => some items
  | _ => none

def string? : Value → Option String
  | string s => some s
  | _ => none

def kind : Value → String
  | undefined => "undefined"
  | null => "null"
  | boolean _ => "boolean"
  | int _ | uint _ => "integer"
  | number _ => "number"
  | string _ => "string"
  | array _ => "array"
  | boxed _ => "boxed"
  | pointer _ => "pointer"
  | function _ => "function"

mutual

/-- Equality of values of one constructor: numbers as numbers, structures by address and callables by
identity. Values of different constructors differ. -/
def same : Value → Value → Bool
  | undefined, undefined => true
  | null, null => true
  | boolean a, boolean b => a == b
  | int a, int b => a == b
  | uint a, uint b => a == b
  | number a, number b => a.same b
  | string a, string b => a == b
  | array a, array b => sameAll a b
  | boxed a, boxed b => a.address == b.address
  | pointer a, pointer b => a == b
  | function a, function b => a.id == b.id
  | _, _ => false

def sameAll : List Value → List Value → Bool
  | [], [] => true
  | a :: as, b :: bs => same a b && sameAll as bs
  | _, _ => false

end

mutual

def render : Value → String
  | undefined => "undefined"
  | null => "null"
  | boolean b => if b then "true" else "false"
  | int i => toString i.toInt
  | uint u => toString u.toNat
  | number x => x.render
  | string s => s
  | array items => "[" ++ String.intercalate "," (renderAll items) ++ "]"
  | boxed b => "[boxed " ++ b.layout.qualifiedName ++ "]"
  | pointer a => "0x" ++ Hex.ofNat a.toNat
  | function f => "function " ++ f.name ++ "()"

def renderAll : List Value → List String
  | [] => []
  | v :: rest => render v :: renderAll rest

end

end Value

end Ferry
