import Ferry.Settings.Level
import Ferry.Text.Quoted

/-!
# Log entries

What the engine reports about its own work. Each entry has a level, a message and fields.
-/

namespace Ferry

inductive LogEntry where
  | planCompiled (function : String) (inputs outputs slots : Nat)
  | symbolResolved (library symbol : String)
  | virtualResolved (function implementor : String)
  | callStarted (function : String) (arguments : Nat)
  | callReturned (function : String)
  | callFailed (function error : String)
  | callbackFailed (callback error : String)
  | callbackPanicked (callback : String)
  | functionReleased (function : String) (implementor : Option String)
  | cleanupRequested
  | stateCleared
  | configIgnored
deriving DecidableEq, Repr, Inhabited

inductive LogField where
  | text (s : String)
  | number (n : Nat)
deriving DecidableEq, Repr, Inhabited

namespace LogEntry

def level : LogEntry → LogLevel
  | callReturned _ => .trace
  | callFailed _ _ | configIgnored => .warn
  | callbackFailed _ _ | callbackPanicked _ => .error
  | _ => .debug

def message : LogEntry → String
  | planCompiled .. => "Call plan compiled"
  | symbolResolved .. => "Symbol resolved"
  | virtualResolved .. => "Virtual function resolved"
  | callStarted .. => "Native function called"
  | callReturned _ => "Native function returned"
  | callFailed .. => "Native function call failed"
  | callbackFailed .. => "Callback failed"
  | callbackPanicked _ => "Callback panicked"
  | functionReleased .. => "Native function released"
  | cleanupRequested => "Cleaning up through C API"
  | stateCleared => "Engine state cleared"
  | configIgnored => "Ignoring config file"

def implementorText : Option String → String
  | none => "None"
  | some name => "Some(" ++ Quoted.write name ++ ")"

def fields : LogEntry → List (String × LogField)
  | planCompiled function inputs outputs slots =>
    [("event", .text "plan_compiled"), ("function", .text function), ("in_count", .number inputs),
     ("out_count", .number outputs), ("frame_slots", .number slots)]
  | symbolResolved library symbol => [("library", .text library), ("symbol", .text symbol)]
  | virtualResolved function implementor =>
    [("function", .text function), ("implementor", .text implementor)]
  | callStarted function arguments =>
    [("event", .text "ffi_call"), ("function", .text function), ("args", .number arguments)]
  | callReturned function => [("event", .text "ffi_return"), ("function", .text function)]
  | callFailed function error =>
    [("event", .text "ffi_error"), ("function", .text function), ("error", .text error)]
  | callbackFailed callback error => [("callback", .text callback), ("error", .text error)]
  | callbackPanicked callback => [("callback", .text callback)]
  | functionReleased function implementor =>
    [("function", .text function), ("implementor", .text (implementorText implementor))]
  | cleanupRequested | stateCleared | configIgnored => []

end LogEntry

end Ferry
