import Depsolve.Settings
/-!
# Reading saved settings strictly

The exact inverse of saving: types are not converted, a key may be given once,
and keys that are no settings are passed over whatever they hold. The settings
may also be given as a list, in their order.
-/
namespace Depsolve.Settings

/-- The exact name of a cache level. -/
def cacheLevelNamed? : String → Option CacheLevel
  | "disabled" => some .disabled
  | "metadata" => some .metadata
  | "all" => some .all
  | _ => none

/-- A cache level as it is saved, or as the only key of an object. -/
def savedCacheLevel? : Json.Draft → Option CacheLevel
  | .string (some name) | .object [(some name, .null)] => cacheLevelNamed? name
  | _ => none

def innerDepth : Nat := Json.depthLimit - 1

def savedList? (d : Json.Draft) : Option (List String) :=
  match d.value? innerDepth with
  | some (.array items) => strings? items
  | _ => none

/-- Write one setting from a value of exactly the saved type. -/
def writeSaved? (s : Settings) (key : SettingKey) (d : Json.Draft) : Option Settings :=
  match key with
  | .cacheOnly => (savedCacheLevel? d).map fun l => { s with cacheOnly := l }
  | .installonlyPkgs => (savedList? d).map fun l => { s with installonlyPkgs := l }
  | .protectedPackages => (savedList? d).map fun l => { s with protectedPackages := l }
  | .excludes => (savedList? d).map fun l => { s with excludes := l }
  | key => (d.value? innerDepth).bind (s.write? key)

def writeMembers? : List (Option String × Json.Draft) → List SettingKey → Settings →
    Option Settings
  | [], _, s => some s
  | (none, _) :: _, _, _ => none
  | (some k, d) :: rest, seen, s =>
    match SettingKey.parse? k with
    | none => writeMembers? rest seen s
    | some key =>
      if seen.contains key then none
      else
        match s.writeSaved? key d with
        | some s => writeMembers? rest (key :: seen) s
        | none => none

def writeItems? : List Json.Draft → List SettingKey → Settings → Option Settings
  | [], _, s => some s
  | _ :: _, [], _ => none
  | d :: rest, key :: keys, s =>
    match s.writeSaved? key d with
    | some s => writeItems? rest keys s
    | none => none

/-- Read saved settings; what is absent keeps its default. -/
def ofSaved? (text : String) : Option Settings :=
  match Json.Draft.read? text with
  | some (.object members) => writeMembers? members [] {}
  | some (.array items) => writeItems? items SettingKey.all {}
  | _ => none

end Depsolve.Settings
