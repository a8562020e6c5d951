/-!
# Dispatch tables

The virtual functions of a type, one table for the type itself and one for each ancestor. A name is
looked up in the nearest table that lists it; an entry of zero there says that the type leaves the
function unimplemented, and hides every entry further up.
-/

namespace Ferry

/-- The entries of one type. The first entry for a name counts. -/
structure DispatchTable where
  typeName : String
  slots : List (String × UInt64)
deriving Repr, Inhabited, DecidableEq

namespace DispatchTable

def slot? (t : DispatchTable) (name : String) : Option UInt64 :=
  t.slots.lookup name

end DispatchTable

structure DispatchChain where
  implementor : DispatchTable
  ancestors : List DispatchTable
deriving Repr, Inhabited, DecidableEq

namespace DispatchChain

def ofTables : List DispatchTable → DispatchChain
  | [] => ⟨⟨"", []⟩, []⟩
  | t :: rest => ⟨t, rest⟩

def tables (c : DispatchChain) : List DispatchTable :=
  c.implementor :: c.ancestors

def typeName (c : DispatchChain) : String :=
  c.implementor.typeName

/-- The address that implements `name`: the entry of the nearest table that lists it, unless that is
zero. -/
def resolve (c : DispatchChain) (name : String) : Option UInt64 :=
  match c.tables.findSome? (·.slot? name) with
  | some address => if address = 0 then none else some address
  | none => none

end DispatchChain

end Ferry
