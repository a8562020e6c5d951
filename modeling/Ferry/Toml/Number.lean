import Ferry.Number.Shortest
import Ferry.Text.Hex
import Ferry.Toml.Node
import Ferry.Toml.Scan

/-!
# Numbers and moments in TOML

Integers are signed words. An underscore may stand between two digits of a number. Dates and times are
only checked against the calendar and the clock.
-/

namespace Ferry.Toml

open Scan

namespace Number

def isDigit (c : Char) : Bool :=
  decide ('0' ≤ c) && decide (c ≤ '9')

/-- Digits with single underscores between them, without the underscores. -/
def digits (p : Char → Bool) : Scan (List Char) := do
  let first ← satisfy p
  let rest ← many (satisfy p <|> (do char '_'; satisfy p))
  return first :: rest

def ofDigits (ds : List Char) : Nat :=
  ds.foldl (fun total c => 10 * total + (c.toNat - '0'.toNat)) 0

def sign : Scan Bool := do
  match ← orNone (satisfy fun c => c == '+' || c == '-') with
  | some c => return c == '-'
  | none => return false

/-- A decimal number without superfluous zeros in front. -/
def whole : Scan Nat := do
  match ← peek with
  | some '0' =>
    char '0'
    return 0
  | _ => ofDigits <$> digits isDigit

def fits (i : Int) : Bool :=
  decide (-9223372036854775808 ≤ i) && decide (i ≤ 9223372036854775807)

/-- An integer in a base other than ten, written after a mark. -/
def based (mark : String) (base : Nat) : Scan Int := do
  Scan.literal mark
  let ds ← digits fun c => (Hex.value? c).any fun v => decide (v < base)
  return ds.foldl (fun total c => base * total + ((Hex.value? c).getD 0 : Nat)) 0

def decimal : Scan Int := do
  let negative ← sign
  let n ← whole
  return if negative then -(n : Int) else n

def integer : Scan Node := do
  let i ← based "0x" 16 <|> based "0o" 8 <|> based "0b" 2 <|> decimal
  if fits i then return .integer i else failure

def exponent : Scan Int := do
  let _ ← satisfy fun c => c == 'e' || c == 'E'
  let negative ← sign
  let n ← ofDigits <$> digits isDigit
  return if negative then -(n : Int) else n

/-- The coefficient is at least the given power of ten times the limit of the double-precision numbers,
half a unit above the largest of them. -/
def exceeds (coefficient : Nat) (exponent : Int) : Bool :=
  let limit := pow2 1024 - pow2 970
  let size : Int := (Nat.toDigits 10 coefficient).length
  if coefficient = 0 ∨ size + exponent < 300 then false
  else if 400 < size + exponent then true
  else if exponent < 0 then decide (limit * pow10 (-exponent).toNat ≤ coefficient)
  else decide (limit ≤ coefficient * pow10 exponent.toNat)

/-- A number with a fraction, an exponent or both. A positive one that is too large is refused. -/
def finite : Scan Node := do
  let negative ← sign
  let w ← whole
  let fraction ← orNone (do char '.'; digits isDigit)
  let power ← orNone exponent
  if fraction.isNone && power.isNone then failure
  let fraction := fraction.getD []
  let coefficient := w * pow10 fraction.length + ofDigits fraction
  let exponent := power.getD 0 - fraction.length
  if exceeds coefficient exponent && !negative then failure
  return .real (.decimal negative coefficient exponent)

def special : Scan Node := do
  let negative ← sign
  (do Scan.literal "inf"; return .real (.infinity negative)) <|>
    (do Scan.literal "nan"; return .real .nan)

/-! ## Dates and times -/

def field (n : Nat) : Scan Nat :=
  ofDigits <$> exactly n isDigit

def isLeap (year : Nat) : Bool :=
  year % 4 == 0 && (year % 100 != 0 || year % 400 == 0)

def daysIn (year month : Nat) : Nat :=
  if month = 2 then if isLeap year then 29 else 28
  else if month = 4 ∨ month = 6 ∨ month = 9 ∨ month = 11 then 30
  else 31

def date : Scan Unit := do
  let year ← field 4
  char '-'
  let month ← field 2
  char '-'
  let day ← field 2
  guard (1 ≤ month ∧ month ≤ 12 ∧ 1 ≤ day ∧ day ≤ daysIn year month)

def clock : Scan Unit := do
  Scan.within 0 23 (field 2)
  char ':'
  Scan.within 0 59 (field 2)

def time : Scan Unit := do
  clock
  char ':'
  Scan.within 0 60 (field 2)
  let _ ← orNone (do
    char '.'
    let _ ← satisfy isDigit
    span isDigit)

def offset : Scan Unit :=
  (do let _ ← satisfy fun c => c == 'Z' || c == 'z') <|> (do
    let _ ← satisfy fun c => c == '+' || c == '-'
    clock)

def moment : Scan Node := do
  (do
    date
    let _ ← orNone (do
      let _ ← satisfy fun c => c == 'T' || c == 't' || c == ' '
      time
      orNone offset)) <|> time
  return .moment

def any : Scan Node :=
  moment <|> finite <|> special <|> integer

end Number

end Ferry.Toml
