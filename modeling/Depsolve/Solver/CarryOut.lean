import Depsolve.Solver.Attempt
/-!
# Carrying out one job

Every kind of job acts on a trial. A job that succeeds leaves a trial without
new violations, except that cleaning up after an erase removes packages that
nothing needs anymore.
-/
namespace Depsolve

def Rules.ofJob (job : Job) (call : Demands) : Rules where
  allowErasing := job.demands.allowErasing || call.allowErasing
  eraseDependents := false
  allowDowngrade :=
    job.demands.allowDowngrade || call.allowDowngrade ||
      job.kind == .downgrade || job.kind == .distroSync || job.kind == .distroSyncAll
  best := job.demands.best || call.best
  cleanDeps := job.demands.cleanDeps || call.cleanDeps

namespace Search

variable (s : Search)

/-- The packages that a job is about, as far as no exclude hides them. -/
def candidates (job : Job) : List PackageId :=
  match job.target with
  | .packages set => set.toList.filter s.pool.considered.contains
  | .dependency d => (s.pool.whatProvides d).filter s.pool.considered.contains
  | .all => s.initial.toList

def candidateNames (job : Job) : List String :=
  (sortCmp compare ((s.candidates job).map fun id => (s.get id).name)).eraseReps

def newestOnly (ids : List PackageId) : List PackageId :=
  ids.filter fun id => !ids.any fun other =>
    (s.get other).name == (s.get id).name && (s.get other).evr.newer (s.get id).evr

/-- A candidate that is present already is pinned; otherwise the preferred one is chosen. -/
def install (r : Rules) (job : Job) (t : Trial) (left : Nat) : Attempt :=
  let found := s.candidates job
  match found.find? t.present.contains with
  | some id => .done { t with pinned := t.pinned.insert id } left
  | none =>
    let free := found.filter fun id => !t.forbidden.contains id
    let choices := if r.best then s.newestOnly free else free
    let order :=
      match job.target with
      | .dependency d => s.policy.preferNamed s.pool d.name choices
      | _ => s.policy.prefer s.pool choices
    if order.isEmpty then .fail (.notApplicable .everyMatchRemoved) left
    else s.chooseFirst r (some .user) t order none left

/-- Take packages off for good. A package that another job has chosen stays. -/
def takeOff (t : Trial) : List PackageId → Except Failure Trial
  | [] => .ok t
  | id :: rest =>
    if t.pinned.contains id then .error (.pinned id)
    else takeOff
      { t with present := t.present.erase id, forbidden := t.forbidden.insert id } rest

def neededBy (t : Trial) (id : PackageId) : IdSet :=
  IdSet.inter ((s.links.requiresOf id).foldl (fun all need => all.union need.2) .empty) t.present

/-- Whether a package came as a dependency, is free to go, and no other package of the trial
requires it. -/
def isUnneeded (t : Trial) (id : PackageId) : Bool :=
  let reason := (t.reasons.get? id).getD (s.get id).reason
  t.present.contains id && s.initial.contains id && !t.pinned.contains id &&
    !s.guarded.contains id && (reason == .dependency || reason == .weakDependency) &&
    !(t.present.erase id).toList.any fun other =>
      (s.links.requiresOf other).any fun need => need.2.contains id

/-- Work off a queue of packages that may have become unneeded, from the lowest on. Each
removal queues what the removed package required. There are at most as many removals as
packages. -/
def cleanFrom : Nat → Trial → List PackageId → Trial × List Note
  | 0, t, _ => (t, [])
  | fuel + 1, t, queue =>
    match queue.dropWhile fun id => !s.isUnneeded t id with
    | [] => (t, [])
    | id :: rest =>
      let t := { t with present := t.present.erase id }
      let queue := (IdSet.ofList rest).union (s.neededBy t id)
      let (t, notes) := cleanFrom fuel t queue.toList
      (t, .removing (s.get id) :: notes)

def cleanDeps (t : Trial) (removed : List PackageId) : Trial × List Note :=
  let queue := removed.foldl (fun all id => all.union (s.neededBy t id)) IdSet.empty
  s.cleanFrom (t.present.size + 1) t queue.toList

def erase (r : Rules) (job : Job) (t : Trial) (left : Nat) : Attempt :=
  let targets := (s.candidates job).filter fun id =>
    s.initial.contains id && t.present.contains id
  if targets.isEmpty then .fail (.notApplicable .noneInstalled) left
  else
    match takeOff t targets with
    | .error e => .fail e left
    | .ok bare =>
      match s.settle { r with eraseDependents := true } bare left with
      | .overBudget => .fail .stepLimit 0
      | .stuck e left => .fail e left
      | .settled settled left =>
        if r.cleanDeps then
          let (t, notes) := s.cleanDeps settled (t.present.diff settled.present).toList
          { result := .ok t, left, notes }
        else .done settled left

def movePool (job : Job) : List PackageId :=
  let ids :=
    match job.target with
    | .all => s.pool.considered.toList
    | _ => s.candidates job
  ids.filter fun id => !(s.get id).installed

def movable (job : Job) (t : Trial) : List PackageId :=
  let kept := (t.present.inter s.initial).toList
  match job.target with
  | .all => kept
  | _ =>
    let names := (s.candidates job).map fun id => (s.get id).name
    kept.filter fun id => names.contains (s.get id).name

def replaces (t : Trial) (id candidate : PackageId) : Bool :=
  candidate != id && !t.forbidden.contains candidate && s.sameFamily candidate id

/-- Newer builds, or else packages that obsolete the installed one; the preferred first. -/
def upgradeCandidates (r : Rules) (available : List PackageId) (t : Trial) (id : PackageId) :
    List PackageId :=
  let newer := available.filter fun c =>
    s.replaces t id c && (s.get c).evr.newer (s.get id).evr
  let found :=
    if newer.isEmpty then
      s.obsoleters.filter fun c =>
        !t.forbidden.contains c && (s.get c).obsoletesPackage (s.get id)
    else newer
  let order := s.policy.preferNamed s.pool (s.get id).name found
  if r.best then order.take 1 else order

/-- Builds other than the installed one, unless the preferred build is the installed one. -/
def syncCandidates (r : Rules) (available : List PackageId) (t : Trial) (id : PackageId) :
    List PackageId :=
  let preferred := s.policy.prefer s.pool (available.filter (s.replaces t id))
  match preferred with
  | [] => []
  | top :: _ =>
    if (s.get top).evr.same (s.get id).evr then []
    else
      let order := preferred.filter fun c => !(s.get c).evr.same (s.get id).evr
      if r.best then order.take 1 else order

def downgradeCandidates (available : List PackageId) (t : Trial) (id : PackageId) :
    List PackageId :=
  s.policy.prefer s.pool <| available.filter fun c =>
    s.replaces t id c && (s.get c).evr.older (s.get id).evr

def move (r : Rules) (job : Job) (t : Trial)
    (candidatesOf : Trial → PackageId → List PackageId) (left : Nat) : Attempt :=
  let ids := s.movable job t
  if job.target != .all && ids.isEmpty then .fail (.notApplicable .onlyAvailable) left
  else forEach candidatesOf (s.replaceOrKeep r) ids t left

/-- Move packages down; at least one has to have an older build. -/
def downgrade (r : Rules) (job : Job) (t : Trial) (left : Nat) : Attempt :=
  let ids := s.movable job t
  let candidatesOf := s.downgradeCandidates (s.movePool job)
  if job.target != .all && ids.isEmpty then .fail (.notApplicable .onlyAvailable) left
  else if ids.all fun id => (candidatesOf t id).isEmpty then
    .fail (.notApplicable .lowestInstalled) left
  else
    forEach candidatesOf (fun t _ order left => s.chooseFirst r none t order none left) ids t left

def changeReason (job : Job) (t : Trial) (left : Nat) : Attempt :=
  let targets := (s.candidates job).filter t.present.contains
  if targets.isEmpty then .fail (.notApplicable .noneInstalledToMark) left
  else
    let reason := job.reason.getD .unknown
    .done { t with reasons := targets.foldl (fun all id => all.insert id reason) t.reasons } left

def carryOut (r : Rules) (job : Job) (t : Trial) (left : Nat) : Attempt :=
  match job.kind with
  | .install => s.install r job t left
  | .erase => s.erase r job t left
  | .upgrade | .upgradeAll => s.move r job t (s.upgradeCandidates r (s.movePool job)) left
  | .distroSync | .distroSyncAll => s.move r job t (s.syncCandidates r (s.movePool job)) left
  | .downgrade => s.downgrade r job t left
  | .reasonChange => s.changeReason job t left
  | .guard => .done t left

end Search

end Depsolve
