import Ferry.Text.Hex
import Ferry.Toml.Scan

/-!
# Text in TOML

The four ways in which text is written: between double quotes with escapes or between single quotes as it
is, on one line or, with the quotes tripled, on several.
-/

namespace Ferry.Toml

open Scan

namespace Text

def hexEscape (n : Nat) : Scan Char := do
  let digits ← exactly n fun c => (Hex.value? c).isSome
  match Hex.toNat? digits with
  | some v => if v.isValidChar then return Char.ofNat v else failure
  | none => failure

def escape : Scan Char := do
  char '\\'
  match ← satisfy fun _ => true with
  | 'b' => return '\x08'
  | 't' => return '\t'
  | 'n' => return '\n'
  | 'f' => return '\x0c'
  | 'r' => return '\r'
  | '"' => return '"'
  | '\\' => return '\\'
  | 'u' => hexEscape 4
  | 'U' => hexEscape 8
  | _ => failure

def isPlain (c : Char) : Bool :=
  isText c && c != '"' && c != '\\'

def isLiteral (c : Char) : Bool :=
  isText c && c != '\''

def basic : Scan (List Char) := do
  char '"'
  let s ← many (satisfy isPlain <|> escape)
  char '"'
  return s

def literal : Scan (List Char) := do
  char '\''
  let s ← span isLiteral
  char '\''
  return s

def innerQuotes (quote : Char) : Scan (List Char) := fun text =>
  let run := text.takeWhile (· == quote)
  if run.length = 1 ∨ run.length = 2 then some (run, text.drop run.length) else none

/-- Three quotes that end the text; one or two more in front of them belong to it. -/
def closingQuotes (quote : Char) : Scan (List Char) := fun text =>
  let run := text.takeWhile (· == quote)
  if run.length < 3 then none
  else
    let inner := min (run.length - 3) 2
    some (List.replicate inner quote, text.drop (inner + 3))

/-- A backslash at the end of a line, with all blanks and ends of lines after it. -/
def continuation : Scan (List Char) := do
  char '\\'
  blanks
  newline
  let _ ← many ((do let _ ← satisfy isBlank) <|> newline)
  return []

def lineBreak : Scan (List Char) := do
  newline
  return ['\n']

/-- Text on several lines, made of the given pieces. An end of line right after the opening quotes does not
count. -/
def lines (quote : Char) (piece : Scan (List Char)) : Scan (List Char) := do
  char quote
  char quote
  char quote
  let _ ← orNone newline
  let body ← many (piece <|> innerQuotes quote)
  let rest ← closingQuotes quote
  return body.flatten ++ rest

def basicLines : Scan (List Char) :=
  lines '"' ((List.singleton <$> satisfy isPlain) <|> continuation <|> (List.singleton <$> escape) <|>
    lineBreak)

def literalLines : Scan (List Char) :=
  lines '\'' ((List.singleton <$> satisfy isLiteral) <|> lineBreak)

def any : Scan String :=
  String.ofList <$> (basicLines <|> basic <|> literalLines <|> literal)

def oneLine : Scan String :=
  String.ofList <$> (basic <|> literal)

end Text

end Ferry.Toml
