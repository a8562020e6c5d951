import Ferry.Settings.Document
import Ferry.Text.Hex

/-!
# Writing TOML

`quote` chooses the plainest of the four ways of writing text that needs no escapes, and escapes only
where none does.
-/

namespace Ferry.Toml

namespace Quote

def isControl (c : Char) : Bool :=
  (decide (c < ' ') && c != '\t' && c != '\n') || c == '\x7f'

def longestRun (x : Char) (s : List Char) : Nat :=
  (s.foldl (fun (best, run) c =>
    let run := if c = x then run + 1 else 0
    (max best run, run)) (0, 0)).1

def escapeControl (c : Char) : List Char :=
  if c = '\x08' then ['\\', 'b']
  else if c = '\t' then ['\\', 't']
  else if c = '\n' then ['\\', 'n']
  else if c = '\x0c' then ['\\', 'f']
  else if c = '\r' then ['\\', 'r']
  else ['\\', 'u'] ++ (Hex.digits 4 c.toNat).map Char.toUpper

/-- Text between double quotes. Runs of at most `quotes` double quotes stand as they are, and so does the end
of a line where `breaks` is set. -/
def escape (quotes : Nat) (breaks : Bool) : (run : Nat) → List Char → List Char
  | _, [] => []
  | run, c :: rest =>
    if c = '"' then
      if run < quotes then c :: escape quotes breaks (run + 1) rest
      else '\\' :: '"' :: escape quotes breaks 0 rest
    else if c = '\\' then '\\' :: '\\' :: escape quotes breaks 0 rest
    else if (c < ' ' ∧ ¬(c = '\n' ∧ breaks)) ∨ c = '\x7f' then
      escapeControl c ++ escape quotes breaks 0 rest
    else c :: escape quotes breaks 0 rest

/-- Text between tripled quotes. It begins on a line of its own when it has several lines. -/
def tripled (quote : String) (s : List Char) (body : List Char) : String :=
  quote ++ (if s.contains '\n' then "\n" else "") ++ String.ofList body ++ quote

def basic (s : List Char) : String :=
  "\"" ++ String.ofList (escape 0 false 0 s) ++ "\""

def basicLines (s : List Char) : String :=
  tripled "\"\"\"" s (escape 2 true 0 s)

def literal (s : List Char) : String :=
  "'" ++ String.ofList s ++ "'"

def literalLines (s : List Char) : String :=
  tripled "'''" s s

end Quote

def quote (text : String) : String :=
  let s := text.toList
  let controls := s.any Quote.isControl
  let backslashes := s.contains '\\'
  let several := s.contains '\n'
  let double := Quote.longestRun '"' s
  let single := Quote.longestRun '\'' s
  if !controls && !backslashes && double = 0 && !several then Quote.basic s
  else if !controls && single = 0 && !several then Quote.literal s
  else if !controls && !backslashes && double ≤ 2 then Quote.basicLines s
  else if !controls && single ≤ 2 then Quote.literalLines s
  else if several then Quote.basicLines s
  else Quote.basic s

def scalarText : Scalar → String
  | .text s => quote s
  | .boolean true => "true"
  | .boolean false => "false"

def tableText (name : String) (entries : List (String × Scalar)) : String :=
  "[" ++ name ++ "]\n" ++ String.join (entries.map fun (key, value) => key ++ " = " ++ scalarText value ++ "\n")

/-- A table for each group, with a blank line between them. -/
def write (groups : List (String × List (String × Scalar))) : String :=
  "\n".intercalate (groups.map fun (name, entries) => tableText name entries)

end Ferry.Toml
