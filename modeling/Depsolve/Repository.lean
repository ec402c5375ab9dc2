import Depsolve.Json.Fault
import Depsolve.Package
/-!
# Repositories

Where records of packages come from. A record maps field names to texts; it is
checked only when a universe is built from it. The repository with the reserved
name describes the installed system.
-/
namespace Depsolve

/-- Field names with their values, in order, each field once. -/
abbrev Record := List (String × String)

def Record.get? (r : Record) (field : String) : Option String := r.lookup field

structure Repository where
  id : String
  /-- Lower numbers are preferred. -/
  priority : Int
  /-- Whether the records describe installed packages. -/
  system : Bool
  records : List Record

def systemRepository : String := "@System"

def defaultPriority : Int := 99

/-- Why the records of a repository could not be used. -/
inductive LoadCause where
  | unreadable (path reason : String)
  | malformed (path : String) (e : Json.SyntaxError)
  | notAnArray (path : String)
  | notAnObject (index : Nat)
  | notStrings (index : Nat) (field : String)
  | unsupportedValue (index : Nat) (field : String)
  | missingField (index : Nat) (field : String)
  | invalidEpoch (name text : String)
  | unknownReason (name text : String)
  | badEntry (name field : String) (cause : EvrError)
deriving DecidableEq

structure LoadError where
  repo : String
  cause : LoadCause
deriving DecidableEq

def LoadCause.message : LoadCause → String
  | .unreadable path reason => s!"{path}: {reason}"
  | .malformed path e => s!"{path}: {e.message}"
  | .notAnArray path => s!"{path}: expected a JSON array"
  | .notAnObject index => s!"record {index} is not an object"
  | .notStrings index field => s!"record {index}: field {field} must hold strings"
  | .unsupportedValue index field => s!"record {index}: unsupported value for field {field}"
  | .missingField index field => s!"record {index} is missing required field \"{field}\""
  | .invalidEpoch name text => s!"{name}: invalid epoch \"{text}\""
  | .unknownReason name text => s!"{name}: unknown reason \"{text}\""
  | .badEntry name field cause => s!"{name}: bad {field} entry: {cause.message}"

def LoadError.message (e : LoadError) : String :=
  s!"Failed to load repository {e.repo}: {e.cause.message}"

end Depsolve
