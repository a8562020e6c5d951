import Ferry.Text.Hex
import Ferry.Text.Unseen

/-!
# Quoted text in diagnostics

Text between double quotes. The quote and the backslash are escaped, and so is every character that
would not show.
-/

namespace Ferry

namespace Quoted

/-- The character shows as itself. -/
def visible (c : Char) : Bool :=
  decide (0x20 ≤ c.toNat) && c != '\x7f' &&
    (decide (c.toNat < 0x80) || !Unseen.holds c.toNat)

def escape (c : Char) : List Char :=
  if c = '\x00' then ['\\', '0']
  else if c = '\t' then ['\\', 't']
  else if c = '\r' then ['\\', 'r']
  else if c = '\n' then ['\\', 'n']
  else if c = '"' then ['\\', '"']
  else if c = '\\' then ['\\', '\\']
  else if visible c then [c]
  else ['\\', 'u', '\x7b'] ++ (Hex.ofNat c.toNat).toList ++ ['\x7d']

def write (s : String) : String :=
  String.ofList ('"' :: s.toList.flatMap escape ++ ['"'])

end Quoted

end Ferry
