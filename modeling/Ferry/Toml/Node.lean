/-!
# Trees of a TOML document

A document is a table of named nodes. Tables come about in several ways, and how one came about says
what may be added to it later: `insert?` adds the value of a key line, `openTable?` and `openElement?`
add what a header line opens. Each of them fails when the name is taken.
-/

namespace Ferry.Toml

inductive TableKind where
  | headed
  | implied
  | dotted
  | closed
deriving DecidableEq, Repr, Inhabited

inductive Real where
  | decimal (negative : Bool) (coefficient : Nat) (exponent : Int)
  | infinity (negative : Bool)
  | nan
deriving DecidableEq, Repr, Inhabited

inductive Node where
  | text (s : String)
  | integer (i : Int)
  | real (r : Real)
  | boolean (b : Bool)
  | moment
  | array (items : List Node)
  | table (kind : TableKind) (entries : List (String × Node))
  | tables (all : List (List (String × Node)))
deriving Inhabited

abbrev Entries := List (String × Node)

namespace Entries

/-- Puts what `change` makes of the node under a name in its place, at the end if there was none. -/
def alter (key : String) (change : Option Node → Option Node) : Entries → Option Entries
  | [] => (change none).map fun n => [(key, n)]
  | (k, n) :: rest =>
    if k = key then (change (some n)).map fun n => (k, n) :: rest
    else (alter key change rest).map ((k, n) :: ·)

def alterLast (change : Entries → Option Entries) (all : List Entries) : Option Node :=
  match all.getLast? with
  | some last => (change last).map fun last => .tables (all.dropLast ++ [last])
  | none => none

/-- Changes the table that the names of a header lead to. Tables that are missing on the way are implied,
and of the tables under one name the last one counts. -/
def within : (path : List String) → (change : Entries → Option Entries) → Entries → Option Entries
  | [], change, entries => change entries
  | key :: rest, change, entries =>
    entries.alter key fun
      | none => (within rest change []).map (.table .implied)
      | some (.table .closed _) => none
      | some (.table kind inner) => (within rest change inner).map (.table kind)
      | some (.tables all) => alterLast (within rest change) all
      | some _ => none

/-- Adds a value under a dotted key: the names before the last one lead to tables that dotted keys made.
A table with a header of its own cannot be reached, and a table that is only implied can be passed but not
added to. `dotted` says that a dotted key made the table at hand, `nested` that it was reached by a name. -/
def insertWithin (dotted nested : Bool) :
    (path : List String) → (key : String) → Node → Entries → Option Entries
  | [], key, value, entries =>
    if dotted = nested then
      entries.alter key fun
        | none => some value
        | some _ => none
    else none
  | step :: rest, key, value, entries =>
    entries.alter step fun
      | none => (insertWithin true true rest key value []).map (.table .dotted)
      | some (.table .dotted inner) => (insertWithin true true rest key value inner).map (.table .dotted)
      | some (.table .implied inner) => (insertWithin false true rest key value inner).map (.table .implied)
      | some (.tables all) => alterLast (insertWithin false true rest key value) all
      | some _ => none

def insert? (path : List String) (key : String) (value : Node) (entries : Entries) : Option Entries :=
  entries.insertWithin false false path key value

def openTable? (path : List String) (key : String) : Entries → Option Entries :=
  within path fun entries =>
    entries.alter key fun
      | none => some (.table .headed [])
      | some (.table .implied inner) => some (.table .headed inner)
      | some _ => none

def openElement? (path : List String) (key : String) : Entries → Option Entries :=
  within path fun entries =>
    entries.alter key fun
      | none => some (.tables [[]])
      | some (.tables all) => some (.tables (all ++ [[]]))
      | some _ => none

end Entries

end Ferry.Toml
