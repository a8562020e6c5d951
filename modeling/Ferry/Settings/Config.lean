import Ferry.Settings.Level
import Ferry.Settings.LogFile

/-!
# Settings

The settings of the engine, their defaults, and the logging that they ask for.
-/

namespace Ferry

inductive LogFormat where
  | pretty
  | compact
  | json
deriving DecidableEq, Repr, Inhabited

namespace LogFormat

def name : LogFormat → String
  | pretty => "pretty"
  | compact => "compact"
  | json => "json"

def parse? : String → Option LogFormat
  | "pretty" => some pretty
  | "compact" => some compact
  | "json" => some json
  | _ => none

end LogFormat

/-- What is logged, how and where to. -/
structure LoggingSettings where
  level : String := "info"
  format : LogFormat := .compact
  /-- Path of the log file; logs go to the console without one. -/
  file : Option String := none
  spans : Bool := false
  filter : Option String := none
deriving DecidableEq, Repr, Inhabited

structure InvokeSettings where
  typeCheck : Bool := true
  cachePlans : Bool := true
  logCalls : Bool := false
deriving DecidableEq, Repr, Inhabited

structure Config where
  logging : LoggingSettings := {}
  invoke : InvokeSettings := {}
deriving DecidableEq, Repr, Inhabited

inductive LogOutput where
  | stdout
  | stderr
  | file (f : LogFile)
deriving DecidableEq, Repr, Inhabited

structure LogConfig where
  level : LogLevel := .info
  format : LogFormat := .compact
  output : LogOutput := .stderr
  spans : Bool := false
  filter : Option String := none
deriving DecidableEq, Repr, Inhabited

/-- Unknown levels count as the default one. -/
def LoggingSettings.logConfig (s : LoggingSettings) : LogConfig :=
  { level := (LogLevel.parse? s.level).getD .info
    format := s.format
    output := s.file.elim .stderr fun path => .file (.ofPath path)
    spans := s.spans
    filter := s.filter }

def LogConfig.ofEnvironment (lookup : String → Option String) : LogConfig :=
  { level := ((lookup "DYNINVOKE_LOG_LEVEL").bind LogLevel.parse?).getD .info
    format := if (lookup "DYNINVOKE_LOG_JSON").isSome then .json else .compact
    output := (lookup "DYNINVOKE_LOG_FILE").elim .stderr fun path => .file (.ofPath path)
    spans := (lookup "DYNINVOKE_LOG_SPANS").isSome
    filter := none }

end Ferry
