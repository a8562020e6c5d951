/-!
# Log levels

How much a log entry matters, and the names by which a level is asked for.
-/

namespace Ferry

inductive LogLevel where
  | trace | debug | info | warn | error
deriving DecidableEq, Repr, Inhabited

namespace LogLevel

def name : LogLevel → String
  | trace => "TRACE"
  | debug => "DEBUG"
  | info => "INFO"
  | warn => "WARN"
  | error => "ERROR"

/-- The level that a word asks for. Case does not matter: no letter outside of the alphabet of these
words turns into one of them alone when its case changes. -/
def parse? (word : String) : Option LogLevel :=
  match String.ofList (word.toList.map Char.toLower) with
  | "trace" => some trace
  | "debug" => some debug
  | "info" => some info
  | "warn" | "warning" => some warn
  | "error" => some error
  | _ => none

end LogLevel

end Ferry
