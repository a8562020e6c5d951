import Ferry.Engine.State
import Ferry.Settings.Document
import Ferry.Settings.FileTree

/-!
# Files of settings

Loading and saving settings, and looking for them from a directory upwards. A file that cannot be used is
reported and passed over.
-/

namespace Ferry

namespace DocumentFormat

variable (format : DocumentFormat)

def fileName : String := ".dyninvoke.toml"

def load (t : FileTree) (path : List String) : Except ConfigError Config :=
  match t.read? path with
  | some text => format.parse text
  | none => .error .read

def save (c : Config) (t : FileTree) (path : List String) : Except ConfigError FileTree :=
  match t.write? path (format.render c) with
  | some t => .ok t
  | none => .error .write

def firstUsable (t : FileTree) : List (List String) → EngineM (Option Config)
  | [] => return none
  | directory :: rest => do
    let path := directory ++ [fileName]
    if (t.find? path).isNone then firstUsable t rest
    else
      match format.load t path with
      | .ok config => return some config
      | .error _ => do
        EngineM.log .configIgnored
        firstUsable t rest

def ancestors (directory : List String) : List (List String) :=
  (List.range (directory.length + 1)).reverse.map directory.take

/-- The settings that are found from a directory upwards. Outside of the tree there are none. -/
def discover (t : FileTree) (start : List String) : EngineM (Option Config) :=
  if FileTree.isAbsolute start then return none
  else format.firstUsable t (ancestors (start.filter (!FileTree.isStay ·)))

end DocumentFormat

end Ferry
