import Ferry.Settings.Config
import Ferry.Toml.Node

/-!
# Settings as a document

Settings are written as a document with one table for logging and one for invocation. What a document leaves
out has its default, and names that settings do not have are passed over; a value of a wrong type is refused.
How documents are written is left to a `DocumentFormat`.
-/

namespace Ferry

/-- What can be wrong with a file of settings. -/
inductive ConfigError where
  | read
  | parse
  | write
deriving DecidableEq, Repr, Inhabited

inductive Scalar where
  | text (s : String)
  | boolean (b : Bool)
deriving DecidableEq, Repr, Inhabited

/-- How documents are read into trees, and how named groups of values are written. -/
structure DocumentFormat where
  read? : String → Option Toml.Entries
  write : List (String × List (String × Scalar)) → String
  read?_empty : read? "" = some []

namespace Config

open Toml

/-- The values that a document gives to the settings of a group, by name. An array gives them in the order of
declaration. -/
def group? (names : List String) : Node → Option Entries
  | .table _ entries => some entries
  | .array items => some (names.zip items)
  | .tables all => some (names.zip (all.map (Node.table .headed)))
  | .moment => some []
  | _ => none

def text? : Node → Option String
  | .text s => some s
  | _ => none

def boolean? : Node → Option Bool
  | .boolean b => some b
  | _ => none

def isHollow : Node → Bool
  | .array items => items.isEmpty
  | .table _ entries => entries.isEmpty
  | .tables all => all.isEmpty
  | _ => false

def format? : Node → Option LogFormat
  | .text s => LogFormat.parse? s
  | .table _ [(name, inner)] => if isHollow inner then LogFormat.parse? name else none
  | _ => none

def setting (entries : Entries) (name : String) (read : Node → Option α) (default : α) : Option α :=
  match entries.lookup name with
  | some node => read node
  | none => some default

def logging? (node : Node) : Option LoggingSettings := do
  let entries ← group? ["level", "format", "file", "spans", "filter"] node
  let d : LoggingSettings := {}
  return {
    level := ← setting entries "level" text? d.level
    format := ← setting entries "format" format? d.format
    file := ← setting entries "file" (fun n => (text? n).map some) d.file
    spans := ← setting entries "spans" boolean? d.spans
    filter := ← setting entries "filter" (fun n => (text? n).map some) d.filter }

def invoke? (node : Node) : Option InvokeSettings := do
  let entries ← group? ["type_check", "cache_plans", "log_calls"] node
  let d : InvokeSettings := {}
  return {
    typeCheck := ← setting entries "type_check" boolean? d.typeCheck
    cachePlans := ← setting entries "cache_plans" boolean? d.cachePlans
    logCalls := ← setting entries "log_calls" boolean? d.logCalls }

end Config

namespace DocumentFormat

variable (format : DocumentFormat)

def parse (text : String) : Except ConfigError Config :=
  let config? : Option Config := do
    let entries ← format.read? text
    return {
      logging := ← Config.setting entries "logging" Config.logging? {}
      invoke := ← Config.setting entries "invoke" Config.invoke? {} }
  match config? with
  | some config => .ok config
  | none => .error .parse

theorem parse_empty : format.parse "" = .ok {} := by
  simp only [parse, format.read?_empty]
  rfl

def render (c : Config) : String :=
  let l := c.logging
  let i := c.invoke
  let optional (key : String) (value : Option String) := value.toList.map fun s => (key, Scalar.text s)
  format.write [
    ("logging", [("level", .text l.level), ("format", .text l.format.name)] ++ optional "file" l.file ++
      [("spans", .boolean l.spans)] ++ optional "filter" l.filter),
    ("invoke", [("type_check", .boolean i.typeCheck), ("cache_plans", .boolean i.cachePlans),
      ("log_calls", .boolean i.logCalls)])]

def readsBack (c : Config) : Bool :=
  match format.parse (format.render c) with
  | .ok d => d = c
  | .error _ => false

end DocumentFormat

end Ferry
