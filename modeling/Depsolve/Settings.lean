import Depsolve.Demands
import Depsolve.Json.Reader
import Depsolve.Solver.Trial
/-!
# Settings

The ten persistent settings of a resolver. A setting is written from a JSON
value or from the text of an environment variable; each of the two has its own
syntax, and a value of the wrong kind is refused by the one and passed over by the other.
-/
namespace Depsolve

inductive SettingKey where
  | best
  | allowErasing
  | cleanRequirementsOnRemove
  | allowDowngrade
  | cacheOnly
  | installonlyPkgs
  | protectedPackages
  | excludes
  | arch
  | maxSolverSteps
deriving DecidableEq

namespace SettingKey

def all : List SettingKey :=
  [.best, .allowErasing, .cleanRequirementsOnRemove, .allowDowngrade, .cacheOnly,
    .installonlyPkgs, .protectedPackages, .excludes, .arch, .maxSolverSteps]

def text : SettingKey → String
  | .best => "best"
  | .allowErasing => "allow-erasing"
  | .cleanRequirementsOnRemove => "clean-requirements-on-remove"
  | .allowDowngrade => "allow-downgrade"
  | .cacheOnly => "cache-only"
  | .installonlyPkgs => "installonly-pkgs"
  | .protectedPackages => "protected-packages"
  | .excludes => "excludes"
  | .arch => "arch"
  | .maxSolverSteps => "max-solver-steps"

def parse? (s : String) : Option SettingKey := all.find? fun k => k.text == s

theorem parse?_text (k : SettingKey) : parse? k.text = some k := by
  cases k <;> decide

end SettingKey

structure Settings where
  best : Bool := false
  allowErasing : Bool := false
  cleanRequirementsOnRemove : Bool := true
  allowDowngrade : Bool := false
  cacheOnly : CacheLevel := .disabled
  /-- Packages, or capabilities, of which several builds may be installed. -/
  installonlyPkgs : List String := ["kernel", "kernel-core", "installonlypkg(kernel)"]
  protectedPackages : List String := []
  /-- Name patterns that hide available packages. -/
  excludes : List String := []
  arch : Option String := none
  maxSolverSteps : Nat := 100000
deriving DecidableEq, Inhabited

namespace Settings

def demands (s : Settings) : Demands where
  allowErasing := s.allowErasing
  best := s.best
  cacheLevel := s.cacheOnly
  allowDowngrade := s.allowDowngrade
  cleanDeps := s.cleanRequirementsOnRemove

def solver (s : Settings) : Solver where
  installonly := s.installonlyPkgs
  protectedNames := s.protectedPackages
  maxSteps := s.maxSolverSteps
  nativeArch := s.arch

def strings? : List Json → Option (List String)
  | [] => some []
  | v :: vs =>
    match v.string?, strings? vs with
    | some s, some ss => some (s :: ss)
    | _, _ => none

/-- A list of strings, taken as they are, or one string with commas between the items. -/
def stringList? : Json → Option (List String)
  | .string s => some (commaFields s)
  | .array items => strings? items
  | _ => none

def cacheLevel? : Json → Option CacheLevel
  | .bool true => some .all
  | .bool false => some .disabled
  | .string s => CacheLevel.parse? s
  | _ => none

def arch? : Json → Option (Option String)
  | .null => some none
  | .string s => some (some s)
  | _ => none

/-- Write one setting from a JSON value, unless the value is of the wrong kind. -/
def write? (s : Settings) (key : SettingKey) (v : Json) : Option Settings :=
  match key with
  | .best => v.bool?.map fun b => { s with best := b }
  | .allowErasing => v.bool?.map fun b => { s with allowErasing := b }
  | .cleanRequirementsOnRemove => v.bool?.map fun b => { s with cleanRequirementsOnRemove := b }
  | .allowDowngrade => v.bool?.map fun b => { s with allowDowngrade := b }
  | .cacheOnly => (cacheLevel? v).map fun l => { s with cacheOnly := l }
  | .installonlyPkgs => (stringList? v).map fun l => { s with installonlyPkgs := l }
  | .protectedPackages => (stringList? v).map fun l => { s with protectedPackages := l }
  | .excludes => (stringList? v).map fun l => { s with excludes := l }
  | .arch => (arch? v).map fun a => { s with arch := a }
  | .maxSolverSteps => v.word?.map fun n => { s with maxSolverSteps := n }

/-- Everything but the usual words for no means yes. -/
def switchOf (text : String) : Bool :=
  match keyword text with
  | "false" | "0" | "no" | "off" => false
  | _ => true

/-- Write one setting from the text of a variable, unless the text is not understood. -/
def override? (s : Settings) (key : SettingKey) (text : String) : Option Settings :=
  match key with
  | .best => some { s with best := switchOf text }
  | .allowErasing => some { s with allowErasing := switchOf text }
  | .cleanRequirementsOnRemove => some { s with cleanRequirementsOnRemove := switchOf text }
  | .allowDowngrade => some { s with allowDowngrade := switchOf text }
  | .cacheOnly => (CacheLevel.parse? text).map fun l => { s with cacheOnly := l }
  | .installonlyPkgs => some { s with installonlyPkgs := wordFields text }
  | .protectedPackages => some { s with protectedPackages := wordFields text }
  | .excludes => some { s with excludes := wordFields text }
  | .arch => some { s with arch := some text }
  | .maxSolverSteps => (readWord? text.toList).map fun n => { s with maxSolverSteps := n }

/-- The saved form. An absent architecture is left out. -/
def toJson (s : Settings) : Json :=
  let list (l : List String) : Json := .array (l.map .string)
  .object <|
    [("best", .bool s.best),
      ("allow-erasing", .bool s.allowErasing),
      ("clean-requirements-on-remove", .bool s.cleanRequirementsOnRemove),
      ("allow-downgrade", .bool s.allowDowngrade),
      ("cache-only", .string s.cacheOnly.text),
      ("installonly-pkgs", list s.installonlyPkgs),
      ("protected-packages", list s.protectedPackages),
      ("excludes", list s.excludes)] ++
    (match s.arch with | some a => [("arch", .string a)] | none => []) ++
    [("max-solver-steps", .int s.maxSolverSteps)]

end Settings

end Depsolve
