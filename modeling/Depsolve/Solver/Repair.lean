import Depsolve.Solver.Trial
/-!
# Repairs

A violation can be repaired by removing an installed package or by bringing in a
provider. The repairs of one violation depend only on the trial in which it was
found, and each is applied to that very trial.
-/
namespace Depsolve

/-- The switches of one job, after those of the call are merged in. -/
structure Rules where
  allowErasing : Bool
  /-- Whether packages that depend on erased ones go too. -/
  eraseDependents : Bool
  allowDowngrade : Bool
  best : Bool
  cleanDeps : Bool
deriving DecidableEq

inductive Repair where
  /-- Take an installed package off. -/
  | remove (id : PackageId)
  /-- Bring in a provider. -/
  | add (id : PackageId)
deriving DecidableEq

/-- What a violation reports once every repair has failed. -/
inductive Complaint where
  | missing (package : PackageId) (d : Dependency) (hadProviders isGuarded : Bool)
  | conflict (package other : PackageId) (guardedOne : Option PackageId)
deriving DecidableEq

/-- The failure to report; of a missing provider the first failure further down says more. -/
def Complaint.failure (deeper : Option Failure) : Complaint → Failure
  | .missing package _ _ true => .guarded package
  | .missing package d hadProviders false =>
    match deeper with
    | some (.missing p e h) => .missing p e h
    | some (.conflict p q) => .conflict p q
    | some (.guarded p) => .guarded p
    | _ => .missing package d hadProviders
  | .conflict _ _ (some id) => .guarded id
  | .conflict package other none => .conflict package other

/-- Whether a package may be removed as a repair. -/
inductive Removal where
  | allowed
  | guarded
  | denied
deriving DecidableEq

namespace Search

variable (s : Search)

def removal (r : Rules) (t : Trial) (id : PackageId) : Removal :=
  if !(r.allowErasing || r.eraseDependents) || !s.initial.contains id || t.pinned.contains id then
    .denied
  else if s.guarded.contains id then .guarded
  else .allowed

def isDowngrade (t : Trial) (id : PackageId) : Bool :=
  !s.isInstallonly id &&
    (s.pool.byName (s.get id).name).any fun other =>
      t.present.contains other && (s.get id).sameArchFamily (s.get other) &&
        (s.get other).evr.newer (s.get id).evr

/-- The providers that may be brought in, the preferred ones first. -/
def providers (r : Rules) (t : Trial) (d : Dependency) : List PackageId :=
  s.policy.preferNamed s.pool d.name <| (s.pool.whatProvides d).filter fun id =>
    s.pool.considered.contains id && !t.forbidden.contains id &&
      (r.allowDowngrade || !s.isDowngrade t id)

/-- The repairs of a requirement without a provider. Where dependents of erased packages go
too, the package itself goes before a provider is looked for. -/
def missingRepairs (r : Rules) (t : Trial) (package : PackageId) (d : Dependency) :
    List Repair :=
  let adds := (s.providers r t d).map Repair.add
  let removes := if s.removal r t package = .allowed then [Repair.remove package] else []
  if r.eraseDependents then removes ++ adds else adds ++ removes

/-- The sides of a conflict; what was installed before goes first. -/
def conflictSides (package other : PackageId) : List PackageId :=
  if s.initial.contains package && !s.initial.contains other then [package, other]
  else [other, package]

def repairs (r : Rules) (t : Trial) : Violation → List Repair
  | .missing package d => s.missingRepairs r t package d
  | .conflict package other =>
    ((s.conflictSides package other).filter fun id => s.removal r t id = .allowed).map .remove

def complaint (r : Rules) (t : Trial) : Violation → Complaint
  | .missing package d =>
    .missing package d (!(s.providers r t d).isEmpty) (s.removal r t package = .guarded)
  | .conflict package other =>
    .conflict package other
      ((s.conflictSides package other).find? fun id => s.removal r t id = .guarded)

def repair (t : Trial) : Repair → Except Failure Trial
  | .remove id => .ok { t with present := t.present.erase id, forbidden := t.forbidden.insert id }
  | .add id => s.add t id

end Search

end Depsolve
