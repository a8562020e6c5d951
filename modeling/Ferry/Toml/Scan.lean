/-!
# Scanning text

A `Scan` takes something off the front of a text, or fails and leaves the text as it was. `Scan.many`
ends by itself, since it goes on only while the text becomes shorter.
-/

namespace Ferry.Toml

/-- Takes something off the front of a text. -/
abbrev Scan := StateT (List Char) Option

namespace Scan

def satisfy (p : Char → Bool) : Scan Char
  | c :: rest => if p c then some (c, rest) else none
  | [] => none

def char (c : Char) : Scan Unit := do
  let _ ← satisfy (· == c)

def literal (s : String) : Scan Unit :=
  s.toList.forM char

/-- The characters up to the first one that is not of the class. -/
def span (p : Char → Bool) : Scan (List Char) := fun text =>
  some (text.takeWhile p, text.dropWhile p)

def exactly (n : Nat) (p : Char → Bool) : Scan (List Char) := fun text =>
  if n ≤ text.length ∧ (text.take n).all p then some (text.take n, text.drop n) else none

def peek : Scan (Option Char) := fun text => some (text.head?, text)

def atEnd : Scan Unit := fun text =>
  if text.isEmpty then some ((), text) else none

def orNone (p : Scan α) : Scan (Option α) :=
  (some <$> p) <|> pure none

def manyOf (p : Scan α) (text : List Char) : List α × List Char :=
  match p text with
  | none => ([], text)
  | some (a, rest) =>
    if rest.length < text.length then
      let (more, rest) := manyOf p rest
      (a :: more, rest)
    else ([], text)
termination_by text.length

def many (p : Scan α) : Scan (List α) := fun text => some (manyOf p text)

theorem many_nil (p : Scan α) : many p [] = some ([], []) := by
  unfold many manyOf
  rcases p [] with _ | ⟨a, rest⟩ <;> rfl

def within (low high : Nat) (p : Scan Nat) : Scan Unit := do
  let n ← p
  guard (low ≤ n ∧ n ≤ high)

/-! ## Blanks and lines -/

def isBlank (c : Char) : Bool :=
  c == ' ' || c == '\t'

/-- A character that may stand in a comment: a tab, or any character that is no control character. -/
def isText (c : Char) : Bool :=
  c == '\t' || (decide (' ' ≤ c) && c != '\x7f')

def blanks : Scan Unit := do
  let _ ← span isBlank

/-- The end of a line, with or without a carriage return. -/
def newline : Scan Unit :=
  char '\n' <|> literal "\r\n"

def comment : Scan Unit := do
  char '#'
  let _ ← span isText

def lineEnd : Scan Unit := do
  blanks
  let _ ← orNone comment
  newline <|> atEnd

def gap : Scan Unit := do
  let _ ← many ((do let _ ← satisfy isBlank) <|> newline <|> comment)

end Scan

end Ferry.Toml
