import Depsolve.Demands
import Depsolve.PackageSet
import Depsolve.Package
/-!
# Jobs

One request of a goal: what is to happen, and to which packages.
-/
namespace Depsolve

inductive JobKind where
  | install
  | erase
  | upgrade
  | upgradeAll
  | distroSync
  | distroSyncAll
  | downgrade
  | reasonChange
  /-- The packages may not be erased. -/
  | guard
deriving DecidableEq

namespace JobKind

def all : List JobKind :=
  [.install, .erase, .upgrade, .upgradeAll, .distroSync, .distroSyncAll, .downgrade,
    .reasonChange, .guard]

def text : JobKind → String
  | .install => "install"
  | .erase => "erase"
  | .upgrade => "upgrade"
  | .upgradeAll => "upgrade-all"
  | .distroSync => "distro-sync"
  | .distroSyncAll => "distro-sync-all"
  | .downgrade => "downgrade"
  | .reasonChange => "reason-change"
  | .guard => "protect"

/-- Kinds that bring selected packages onto the system. -/
def installLike : JobKind → Bool
  | .install | .upgrade | .distroSync | .downgrade => true
  | _ => false

end JobKind

inductive JobTarget where
  /-- Fixed when the job was added. -/
  | packages (set : PackageSet)
  /-- Whatever provides the capability when the job is carried out. -/
  | dependency (d : Dependency)
  /-- Every installed package. -/
  | all
deriving DecidableEq

structure Job where
  kind : JobKind
  /-- What was asked for, as shown to the user. -/
  spec : String
  target : JobTarget
  /-- The new reason of a reason change. -/
  reason : Option Reason := none
  demands : Demands := {}
  /-- An empty match or a failure is passed over. -/
  optional : Bool := false
deriving DecidableEq

namespace Job

def text (j : Job) : String :=
  s!"{j.kind.text} {j.spec}" ++ (if j.optional then " (optional)" else "")

def isEmptyMatch (j : Job) : Bool :=
  match j.target with
  | .packages set => set.isEmpty
  | _ => false

end Job

end Depsolve
