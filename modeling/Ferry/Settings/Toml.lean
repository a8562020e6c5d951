import Ferry.Settings.Discovery
import Ferry.Toml.Reader
import Ferry.Toml.Writer

/-!
# Settings in TOML

The format that the program keeps its settings in.
-/

namespace Ferry

def Toml.format : DocumentFormat where
  read? := read?
  write := write
  read?_empty := read?_empty

namespace Config

def parse (text : String) : Except ConfigError Config :=
  Toml.format.parse text

def render (c : Config) : String :=
  Toml.format.render c

def readsBack (c : Config) : Bool :=
  Toml.format.readsBack c

/-- The document of the default settings. -/
def defaultDocument : String :=
  render {}

def load (t : FileTree) (path : List String) : Except ConfigError Config :=
  Toml.format.load t path

def save (c : Config) (t : FileTree) (path : List String) : Except ConfigError FileTree :=
  Toml.format.save c t path

def discover (t : FileTree) (start : List String) : EngineM (Option Config) :=
  Toml.format.discover t start

end Config

end Ferry
