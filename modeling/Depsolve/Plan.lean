import Depsolve.Problem
import Depsolve.Universe
/-!
# Transaction plans

A plan is an ordered list of typed operations, or the problems that prevented one.
-/
namespace Depsolve

inductive OperationKind where
  | install
  | upgrade
  | downgrade
  | reinstall
  | erase
  /-- Erased because a new package obsoletes it. -/
  | obsolete
  /-- Stays installed with another recorded reason. -/
  | reasonChange
deriving DecidableEq

namespace OperationKind

def text : OperationKind → String
  | .install => "install"
  | .upgrade => "upgrade"
  | .downgrade => "downgrade"
  | .reinstall => "reinstall"
  | .erase => "erase"
  | .obsolete => "obsolete"
  | .reasonChange => "reason-change"

def isInbound : OperationKind → Bool
  | .install | .upgrade | .downgrade | .reinstall => true
  | _ => false

end OperationKind

structure Operation where
  kind : OperationKind
  package : PackageId
  /-- The old build that is replaced, or the package that obsoletes this one. -/
  replaced : Option PackageId := none
  /-- The reason recorded for the package. -/
  reason : Reason
deriving DecidableEq

def Operation.describe (u : Universe) (op : Operation) : String :=
  let name (id : PackageId) : String := (u.get id).nevra
  match op.kind, op.replaced with
  | .obsolete, some new => s!"obsolete {name op.package} (by {name new})"
  | .reasonChange, _ => s!"reason-change {name op.package} ({op.reason.text})"
  | kind, some old => s!"{kind.text} {name op.package} (replacing {name old})"
  | kind, none => s!"{kind.text} {name op.package}"

structure Plan where
  operations : List Operation := []
  problems : ProblemSet := []
deriving DecidableEq

/-- The number of operations of each kind. -/
structure PlanSummary where
  installs : Nat
  upgrades : Nat
  downgrades : Nat
  reinstalls : Nat
  erasures : Nat
  obsoletes : Nat
  reasonChanges : Nat
deriving DecidableEq

namespace PlanSummary

def counts (s : PlanSummary) : List Nat :=
  [s.installs, s.upgrades, s.downgrades, s.reinstalls, s.erasures, s.obsoletes, s.reasonChanges]

def labels : List String :=
  ["install", "upgrade", "downgrade", "reinstall", "removal", "obsolete", "reason change"]

def text (s : PlanSummary) : String :=
  let parts := ((s.counts.zip labels).filter fun p => p.1 > 0).map fun p => s!"{p.1} {p.2}(s)"
  if parts.isEmpty then "Nothing to do" else ", ".intercalate parts

end PlanSummary

namespace Plan

/-- A plan that was prevented by problems. -/
def failed (problems : ProblemSet) : Plan := { problems }

def isSuccess (p : Plan) : Bool := p.problems.isEmpty

def isEmpty (p : Plan) : Bool := p.operations.isEmpty

def size (p : Plan) : Nat := p.operations.length

def ofKind (p : Plan) (kind : OperationKind) : List Operation :=
  p.operations.filter (·.kind == kind)

def obsoletedBy (p : Plan) (id : PackageId) : List PackageId :=
  ((p.ofKind .obsolete).filter (·.replaced == some id)).map Operation.package

/-- The packages whose files are needed, in the order of the plan. -/
def inbound (p : Plan) : List PackageId :=
  (p.operations.filter (·.kind.isInbound)).map Operation.package

def summary (p : Plan) : PlanSummary where
  installs := (p.ofKind .install).length
  upgrades := (p.ofKind .upgrade).length
  downgrades := (p.ofKind .downgrade).length
  reinstalls := (p.ofKind .reinstall).length
  erasures := (p.ofKind .erase).length
  obsoletes := (p.ofKind .obsolete).length
  reasonChanges := (p.ofKind .reasonChange).length

end Plan

end Depsolve
