/-!
# File trees

The files and directories below one directory. A path is walked name by name, and every name but the last
must lead to a directory. A path that does not start from that directory leads nowhere.
-/

namespace Ferry

inductive FileEntry where
  | file (content : String)
  | directory
deriving DecidableEq, Repr, Inhabited

/-- Files and directories by the names that lead to them. The directories on the way need not be listed. -/
structure FileTree where
  listed : List (List String × FileEntry)
deriving DecidableEq, Repr, Inhabited

namespace FileTree

def names (path : String) : List String :=
  path.splitOn "/"

def isStay (name : String) : Bool :=
  name == "" || name == "."

def isAbsolute : List String → Bool
  | "" :: _ :: _ => true
  | _ => false

def at? (t : FileTree) (place : List String) : Option FileEntry :=
  match t.listed.lookup place with
  | some e => some e
  | none =>
    if place.isEmpty || t.listed.any (fun (p, _) => place.isPrefixOf p) then some .directory else none

/-- Where names lead from a place; nowhere if a name has to be looked up in what is no directory, or leads
out of the tree. -/
def walk (t : FileTree) (place : List String) : List String → Option (List String)
  | [] => some place
  | name :: rest =>
    if t.at? place = some .directory then
      if isStay name then t.walk place rest
      else if name = ".." then if place.isEmpty then none else t.walk place.dropLast rest
      else t.walk (place ++ [name]) rest
    else none

def place? (t : FileTree) (path : List String) : Option (List String) :=
  if isAbsolute path then none else t.walk [] path

def find? (t : FileTree) (path : List String) : Option FileEntry :=
  (t.place? path).bind t.at?

def read? (t : FileTree) (path : List String) : Option String :=
  match t.find? path with
  | some (.file content) => some content
  | _ => none

/-- The tree with a file at a path, which must not lead to a directory. The directory around it must be
there. -/
def write? (t : FileTree) (path : List String) (content : String) : Option FileTree := do
  let last ← path.getLast?
  if isStay last || last = ".." then none
  let place ← t.place? path
  if t.at? place = some .directory then none
  return ⟨(place, .file content) :: t.listed.filter (·.1 != place)⟩

end FileTree

end Ferry
