import Ferry.Toml.Number
import Ferry.Toml.Text

/-!
# Reading TOML

`read?` takes a document to its tree. It fails on anything that is no well-formed document, on names that
are given twice, and on arrays, tables and keys that are nested too deep.
-/

namespace Ferry.Toml

open Scan

/-- How deep arrays and tables between brackets may be nested in each other. -/
def nestingLimit : Nat := 79

namespace Key

def isBare (c : Char) : Bool :=
  c.isAlphanum || c == '-' || c == '_'

def part : Scan String :=
  Text.oneLine <|> (do
    let first ← satisfy isBare
    return String.ofList (first :: (← span isBare)))

def padded : Scan String := do
  blanks
  let p ← part
  blanks
  return p

def any : Scan (List String × String) := do
  let first ← padded
  let rest ← many (do char '.'; padded)
  let names := first :: rest
  if nestingLimit < names.length then failure
  return (names.dropLast, names.getLastD "")

end Key

namespace Node

def word : Scan Node :=
  (do literal "true"; return .boolean true) <|> (do literal "false"; return .boolean false) <|>
    Number.special

def keyed (value : Scan Node) : Scan ((List String × String) × Node) := do
  let key ← Key.any
  char '='
  blanks
  let v ← value
  return (key, v)

def arrayOf (value : Scan Node) : Scan Node := do
  let item : Scan Node := do
    gap
    let v ← value
    gap
    return v
  char '['
  let items ← (do
    let first ← item
    let rest ← many (do char ','; item)
    let _ ← orNone (char ',')
    return first :: rest) <|> pure []
  gap
  char ']'
  return .array items

def tableOf (value : Scan Node) : Scan Node := do
  let item : Scan ((List String × String) × Node) := do
    let kv ← keyed value
    blanks
    return kv
  char '\x7b'
  let items ← (do
    let first ← item
    let rest ← many (do char ','; item)
    return first :: rest) <|> pure []
  blanks
  char '\x7d'
  match items.foldlM (fun es kv => Entries.insert? kv.1.1 kv.1.2 kv.2 es) [] with
  | some entries => return .table .closed entries
  | none => failure

/-- A value in which brackets are nested no deeper than `depth`. -/
def within : (depth : Nat) → Scan Node
  | 0 => (Node.text <$> Text.any) <|> Number.any <|> word
  | depth + 1 => (Node.text <$> Text.any) <|> Number.any <|> word <|>
      arrayOf (within depth) <|> tableOf (within depth)

def any : Scan Node :=
  within nestingLimit

end Node

/-- What a line of a document says. -/
inductive Line where
  | blank
  | table (path : List String) (key : String)
  | element (path : List String) (key : String)
  | entry (path : List String) (key : String) (value : Node)
deriving Inhabited

namespace Line

def table? : Scan Line := do
  char '['
  let (path, key) ← Key.any
  char ']'
  lineEnd
  return .table path key

def element? : Scan Line := do
  literal "[["
  let (path, key) ← Key.any
  literal "]]"
  lineEnd
  return .element path key

def assignment? : Scan Line := do
  let ((path, key), value) ← Node.keyed Node.any
  lineEnd
  return .entry path key value

def blank? : Scan Line := do
  lineEnd
  return .blank

def any : Scan Line := do
  blanks
  element? <|> table? <|> assignment? <|> blank?

end Line

/-- The lines of a document. A mark of the byte order in front does not count. -/
def lines : Scan (List Line) := do
  let _ ← orNone (char '\uFEFF')
  let all ← many Line.any
  blanks
  atEnd
  return all

theorem lines_nil : lines [] = some ([], []) := by
  have split : lines [] = (many Line.any [] >>= fun found =>
      (do blanks; atEnd; return found.1 : Scan (List Line)) found.2) := rfl
  rw [split, many_nil]
  rfl

/-- A document that is partly read: its tree, and the names of the table that is open. -/
structure Draft where
  entries : Entries
  current : List String
deriving Inhabited

namespace Draft

def add (d : Draft) : Line → Option Draft
  | .blank => some d
  | .table path key => (d.entries.openTable? path key).map (⟨·, path ++ [key]⟩)
  | .element path key => (d.entries.openElement? path key).map (⟨·, path ++ [key]⟩)
  | .entry path key value =>
    (d.entries.within d.current (Entries.insert? path key value)).map fun es => { d with entries := es }

end Draft

def read? (text : String) : Option Entries := do
  let (all, _) ← lines.run text.toList
  let d ← all.foldlM Draft.add ⟨[], []⟩
  return d.entries

theorem read?_empty : read? "" = some [] := by
  have split : read? "" = (lines "".toList >>= fun found =>
      found.1.foldlM Draft.add ⟨[], []⟩ >>= fun d => some d.entries) := rfl
  have bare : "".toList = [] := rfl
  rw [split, bare, lines_nil]
  rfl

end Ferry.Toml
