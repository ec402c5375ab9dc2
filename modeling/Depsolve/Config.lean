import Depsolve.Association
import Depsolve.Settings.Environment
/-!
# Configuration

Settings together with where each of them came from. Layers are laid over each
other: the defaults, the file, the environment, and values set by the caller.
-/
namespace Depsolve

inductive ConfigSource where
  | default
  | file (path : String)
  | environment (var : String)
  | command
deriving DecidableEq

def ConfigSource.text : ConfigSource → String
  | .default => "default"
  | .file _ => "file"
  | .environment var => var
  | .command => "command"

inductive ConfigError where
  | invalidValue (key : String) (value : Json)
  | unknownKey (key : String)
  | unreadable (path reason : String)
  | malformed (path : String) (e : Json.SyntaxError)
  /-- Reported by what carries out a plan. -/
  | other (text : String)

def ConfigError.message : ConfigError → String
  | .invalidValue key value =>
    let text := value.text
    s!"Configuration error: Invalid value for \"{key}\": {text}"
  | .unknownKey key => s!"Configuration error: Unknown config key \"{key}\""
  | .unreadable path reason => s!"Configuration error: Failed to read {path}: {reason}"
  | .malformed path e => s!"Configuration error: Failed to parse {path}: {e.message}"
  | .other text => s!"Configuration error: {text}"

/-- What is found at a path. -/
inductive FileContent where
  /-- Nothing, or the path cannot lead anywhere. -/
  | missing (reason : String := "No such file or directory (os error 2)")
  | text (s : String)
  | unreadable (reason : String)

structure Config where
  settings : Settings := {}
  sources : List (SettingKey × ConfigSource) := []

namespace Config

def source? (c : Config) (key : SettingKey) : Option ConfigSource := c.sources.lookup key

/-- Write one setting by name, and record its source. -/
def write (c : Config) (key : String) (value : Json) (source : ConfigSource) :
    Except ConfigError Config :=
  match SettingKey.parse? key with
  | none => .error (.unknownKey key)
  | some k =>
    match c.settings.write? k value with
    | none => .error (.invalidValue key value)
    | some settings => .ok { settings, sources := Association.set k source c.sources }

def set (c : Config) (key : String) (value : Json) : Except ConfigError Config :=
  c.write key value .command

def writeAll (source : ConfigSource) :
    List (String × Json) → Config → Except ConfigError Config
  | [], c => .ok c
  | (key, value) :: rest, c =>
    match c.write key value source with
    | .error e => .error e
    | .ok c => writeAll source rest c

/-- The members of a configuration file. A missing file has none. -/
def readFile (path : String) : FileContent → Except ConfigError (List (String × Json))
  | .missing _ => .ok []
  | .unreadable reason => .error (.unreadable path reason)
  | .text s => (Json.readMembers s).mapError (.malformed path)

/-- Override one setting by its variable, if that is set and understood. -/
def overrideOne (r : EnvironmentReader) (c : Config) (key : SettingKey) : Config :=
  match (r.text? key.text).bind (c.settings.override? key) with
  | some settings =>
    { settings
      sources := Association.set key (.environment (Environment.varName key.text)) c.sources }
  | none => c

/-- The defaults, marked as such. -/
def defaults : Config where
  sources := SettingKey.all.map fun k => (k, .default)

/-- Lay the file and, if it is enabled, the environment over the defaults. -/
def build (r : EnvironmentReader) (path : String) (content : FileContent) :
    Except ConfigError Config := do
  let members ← readFile path content
  let c ← writeAll (.file path) members defaults
  pure (SettingKey.all.foldl (overrideOne r) c)

end Config

end Depsolve
