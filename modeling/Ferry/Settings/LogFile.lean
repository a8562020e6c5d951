/-!
# Where a log file goes

A log file is rotated daily, so its path is taken apart into a directory and a file name. Paths are
read component by component: empty components and a component `.` that is not the first do not
count.
-/

namespace Ferry

/-- Directory and first part of the name of a log file. -/
structure LogFile where
  directory : String
  fileName : String
deriving DecidableEq, Repr, Inhabited

namespace LogFile

def defaultName : String := "dyninvoke.log"

/-- A path as its components, each with the number of characters of the path up to its end. -/
structure Components where
  absolute : Bool
  parts : List (String × Nat)

def segments : List Char → Nat → List Char → List (String × Nat)
  | current, position, [] => [(String.ofList current.reverse, position)]
  | current, position, c :: rest =>
    if c = '/' then (String.ofList current.reverse, position) :: segments [] (position + 1) rest
    else segments (c :: current) (position + 1) rest

def components (path : String) : Components :=
  let absolute := path.toList.head? == some '/'
  let all := segments [] 0 path.toList
  let counts (s : String) : Bool := s != "" && s != "."
  let parts :=
    match all with
    | (".", position) :: rest => (".", position) :: rest.filter (counts ·.1)
    | _ => all.filter (counts ·.1)
  ⟨absolute, parts⟩

def parent (path : String) : String :=
  let c := components path
  match c.parts.dropLast.getLast? with
  | some (_, position) => String.ofList (path.toList.take position)
  | none => if c.absolute && !c.parts.isEmpty then "/" else ""

def name? (path : String) : Option String :=
  match (components path).parts.getLast? with
  | some (part, _) => if part = "." ∨ part = ".." then none else some part
  | none => none

def ofPath (path : String) : LogFile :=
  let directory := parent path
  ⟨if directory = "" then "." else directory, (name? path).getD defaultName⟩

end LogFile

end Ferry
