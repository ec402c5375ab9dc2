import Depsolve.Text.Keyword
/-!
# Demands

The switches of one resolution call. They are copied into every job.
-/
namespace Depsolve

/-- How far stored metadata may stand in for fresh metadata. -/
inductive CacheLevel where
  /-- Always fetch. -/
  | disabled
  /-- Metadata may be stored, packages are fetched. -/
  | metadata
  /-- Fetch nothing; a missing store counts as empty. -/
  | all
deriving DecidableEq, Inhabited

namespace CacheLevel

def text : CacheLevel → String
  | .disabled => "disabled"
  | .metadata => "metadata"
  | .all => "all"

def parse? (s : String) : Option CacheLevel :=
  match keyword s with
  | "disabled" | "false" | "0" => some .disabled
  | "metadata" => some .metadata
  | "all" | "true" | "1" => some .all
  | _ => none

end CacheLevel

structure Demands where
  /-- Erase installed packages when that is the only way. -/
  allowErasing : Bool := false
  /-- Accept only the best candidate of each job. -/
  best : Bool := false
  cacheLevel : CacheLevel := .disabled
  /-- Let upgrades and distribution syncs move to older builds. -/
  allowDowngrade : Bool := false
  /-- After an erase, remove dependencies that nothing needs anymore. -/
  cleanDeps : Bool := false
deriving DecidableEq, Inhabited

end Depsolve
