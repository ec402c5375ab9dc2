import Depsolve.Decisions
import Depsolve.IdSet
import Depsolve.Policy
/-!
# The system on trial

The search works on a copy of the installed system. What it looks up and never
changes is collected once: the provider links of the universe, the packages that
were installed, the protected ones, and those that were broken before any job.
-/
namespace Depsolve

structure Solver where
  /-- Names of packages or capabilities of which several builds may be installed. -/
  installonly : List String
  /-- Names of packages that may not be erased. -/
  protectedNames : List String
  /-- The search budget of one job. -/
  maxSteps : Nat
  nativeArch : Option String
deriving DecidableEq

/-- Whether several builds of a package may be installed side by side. -/
def Solver.isInstallonly (s : Solver) (p : Package) : Bool :=
  s.installonly.any fun n => n == p.name || p.provides.any fun d => d.name == n

/-- For every package its requirements and its conflicts, each with the set of providers. -/
structure Links where
  requires : Array (List (Dependency × IdSet))
  conflicts : Array (List (Dependency × IdSet))

namespace Links

def providers (u : Universe) (d : Dependency) : Dependency × IdSet :=
  (d, IdSet.ofList (u.whatProvides d))

def ofUniverse (u : Universe) : Links where
  requires := u.packages.map fun p => p.requires.map (providers u)
  conflicts := u.packages.map fun p => p.conflicts.map (providers u)

def requiresOf (l : Links) (id : PackageId) : List (Dependency × IdSet) := l.requires.getD id []

def conflictsOf (l : Links) (id : PackageId) : List (Dependency × IdSet) := l.conflicts.getD id []

end Links

/-- What is wrong with a set of packages. -/
inductive Violation where
  /-- A requirement of a package has no provider. -/
  | missing (package : PackageId) (d : Dependency)
  /-- A package conflicts with another. -/
  | conflict (package other : PackageId)
deriving DecidableEq

/-- The first requirement without a provider, or else the first conflict with the lowest
package in conflict. -/
def Links.violationOf? (l : Links) (present : IdSet) (id : PackageId) : Option Violation :=
  match (l.requiresOf id).find? fun need => (need.2.inter present).isEmpty with
  | some need => some (.missing id need.1)
  | none =>
    (l.conflictsOf id).findSome? fun ban =>
      ((ban.2.inter present).erase id).toList.head?.map (.conflict id)

structure Search where
  solver : Solver
  pool : Universe
  links : Links
  policy : Policy
  /-- The packages that are installed at the start. -/
  initial : IdSet
  /-- The protected packages among them. -/
  guarded : IdSet
  /-- The packages among them that were broken before any job. They are left alone. -/
  tolerated : IdSet
  /-- The available packages that obsolete something, ascending. -/
  obsoleters : List PackageId
  links_eq : links = Links.ofUniverse pool
  initial_eq : initial = pool.installed.members
  guarded_initial : ∀ id ∈ guarded, id ∈ initial
  tolerated_eq : tolerated = initial.filter fun id => (links.violationOf? initial id).isSome
  obsoleters_eq :
    obsoleters = pool.considered.toList.filter fun id =>
      !(pool.get id).installed && !(pool.get id).obsoletes.isEmpty

/-- A working copy of the system. -/
structure Trial where
  present : IdSet
  /-- Chosen by a job; not to be replaced or removed. -/
  pinned : IdSet := ∅
  /-- Taken off by a job; not to come back. -/
  forbidden : IdSet := ∅
  /-- Pairs of a new package and an old one that it obsoleted, the latest first. -/
  obsoleted : List (PackageId × PackageId) := []
  reasons : Reasons := ∅
deriving DecidableEq

inductive Obstacle where
  | everyMatchRemoved
  | noneInstalled
  | onlyAvailable
  | lowestInstalled
  | noneInstalledToMark
  | noCandidate
deriving DecidableEq

inductive Failure where
  | missing (package : PackageId) (d : Dependency) (hadProviders : Bool)
  | conflict (package other : PackageId)
  | guarded (package : PackageId)
  | pinned (package : PackageId)
  | forbidden (package : PackageId)
  | notApplicable (obstacle : Obstacle)
  | stepLimit
deriving DecidableEq

namespace Search

variable (s : Search)

def get (id : PackageId) : Package := s.pool.get id

def isInstallonly (id : PackageId) : Bool := s.solver.isInstallonly (s.get id)

def sameFamily (a b : PackageId) : Bool :=
  (s.get a).name == (s.get b).name && (s.get a).sameArchFamily (s.get b)

/-- The first violation of a package that was not broken from the start. -/
def firstViolation? (t : Trial) : Option Violation :=
  (t.present.diff s.tolerated).toList.findSome? (s.links.violationOf? t.present)

/-- Builds of the family that give way to `id`; none when several may be installed. -/
def displacedBuilds (t : Trial) (id : PackageId) : List PackageId :=
  if s.isInstallonly id then []
  else (s.pool.byName (s.get id).name).filter fun other =>
    other != id && t.present.contains other && (s.get id).sameArchFamily (s.get other)

/-- Packages of other names that `id` obsoletes, once for each entry that says so. -/
def displacedByObsoletes (t : Trial) (id : PackageId) : List PackageId :=
  ((s.get id).obsoletes.filter fun o => o.name != (s.get id).name).flatMap fun o =>
    (s.pool.byName o.name).filter fun other =>
      t.present.contains other && o.matchesEvr (s.get other).evr

def displaceBuild (t : Trial) (other : PackageId) : Except Failure Trial :=
  if t.pinned.contains other then .error (.pinned other)
  else .ok { t with present := t.present.erase other }

def displaceObsolete (id : PackageId) (t : Trial) (other : PackageId) : Except Failure Trial :=
  if t.pinned.contains other then .error (.pinned other)
  else if s.guarded.contains other then .error (.guarded other)
  else .ok {
    t with
    present := t.present.erase other
    obsoleted := (id, other) :: t.obsoleted }

/-- Put a package on the system. It displaces the builds of its family and everything it
obsoletes. -/
def add (t : Trial) (id : PackageId) : Except Failure Trial :=
  if t.present.contains id then .ok t
  else if t.forbidden.contains id then .error (.forbidden id)
  else do
    let t₁ ← (s.displacedBuilds t id).foldlM displaceBuild t
    let t₂ ← (s.displacedByObsoletes t id).foldlM (s.displaceObsolete id) t₁
    pure { t₂ with present := t₂.present.insert id }

end Search

end Depsolve
