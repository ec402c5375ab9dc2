import Depsolve.Settings
import Depsolve.Text.Uppercase
/-!
# Environment variables

Each setting has a variable. Empty variables count as absent, and none is read
when the environment is disabled.
-/
namespace Depsolve

/-- Names with values, each pair joined by an equals sign. -/
abbrev Environment := List (String × String)

namespace Environment

def behind? (start text : List Char) : Option String :=
  if start.isPrefixOf text then some (String.ofList (text.drop start.length)) else none

/-- The value of a variable: what follows its name and an equals sign in the first joined pair
that begins so. -/
def get? (env : Environment) (var : String) : Option String :=
  env.findSome? fun (name, value) => behind? (var ++ "=").toList (name ++ "=" ++ value).toList

def nonempty? (env : Environment) (var : String) : Option String :=
  (env.get? var).filter fun v => !v.isEmpty

/-- The variable of a key: upper case, dashes as underscores. -/
def varName (key : String) : String :=
  "RPMSOLVE_" ++ upperText (String.ofList (key.toList.map fun c => if c == '-' then '_' else c))

end Environment

/-- The environment as far as it may be read. -/
structure EnvironmentReader where
  enabled : Bool
  env : Environment

namespace EnvironmentReader

def get? (r : EnvironmentReader) (var : String) : Option String :=
  if r.enabled then r.env.nonempty? var else none

def text? (r : EnvironmentReader) (key : String) : Option String :=
  r.get? (Environment.varName key)

def switch? (r : EnvironmentReader) (key : String) : Option Bool :=
  (r.text? key).map Settings.switchOf

def word? (r : EnvironmentReader) (key : String) : Option Nat :=
  (r.text? key).bind fun v => readWord? v.toList

def list? (r : EnvironmentReader) (key : String) : Option (List String) :=
  (r.text? key).map wordFields

def joinPath (dir file : String) : String :=
  if file.startsWith "/" || dir.isEmpty then file
  else if dir.endsWith "/" then dir ++ file
  else dir ++ "/" ++ file

/-- The directory of the configuration: its own variable, or the directory of the program under
the user's configuration directory, which has to be absolute to count. -/
def configDir (r : EnvironmentReader) : String :=
  match r.get? "RPMSOLVE_CONFIG_DIR" with
  | some dir => dir
  | none =>
    let user :=
      match (r.env.get? "XDG_CONFIG_HOME").filter fun dir => dir.startsWith "/" with
      | some dir => dir
      | none => joinPath ((r.env.get? "HOME").getD "") ".config"
    joinPath user "rpmsolve"

def configFile (r : EnvironmentReader) : String := joinPath r.configDir "rpmsolve.json"

end EnvironmentReader

end Depsolve
