import Depsolve.Solver.Precheck
/-!
# Solving a list of jobs

The jobs are carried out one after another on a copy of the installed system.
Each job either takes effect as a whole or leaves no trace but its problem, so
one failing request does not hide the others.
-/
namespace Depsolve

/-- Decisions, or every problem that was found, and the notes of the run. -/
structure Solution where
  outcome : Except (List Problem) Decisions
  notes : List Note

structure Progress where
  trial : Trial
  problems : List Problem
  notes : List Note

namespace Search

variable (s : Search)

/-- Carry out one job with a fresh budget. A failure puts the trial back; an optional job
fails silently unless its budget ran out. -/
def runJob (call : Demands) (p : Progress) (job : Job) : Progress :=
  let maxSteps := s.solver.maxSteps
  let a := s.carryOut (Rules.ofJob job call) job p.trial maxSteps
  let notes := p.notes ++ a.notes
  match a.result with
  | .ok t => { p with trial := t, notes := notes ++ [.done job (maxSteps - a.left)] }
  | .error e =>
    let problem := e.problem s.pool job maxSteps
    if job.optional && e != .stepLimit then
      { p with notes := notes ++ [.passedOver job problem] }
    else { p with problems := p.problems ++ [problem], notes := notes ++ [.failed job problem] }

/-- The jobs that are carried out: all but those that protect and those left out. -/
def runnable (jobs : List Job) (skipped : IdSet) : List Job :=
  (jobs.zipIdx.filter fun p => p.1.kind != .guard && !skipped.contains p.2).map Prod.fst

/-- The reason of a new package: its own, or that of the installed build it follows. -/
def newReason (t : Trial) (id : PackageId) : Reason :=
  match t.reasons.get? id with
  | some reason => reason
  | none =>
    match s.initial.toList.find? fun old => s.sameFamily old id with
    | some old => (t.reasons.get? old).getD (s.get old).reason
    | none => .dependency

def decisions (t : Trial) : Decisions :=
  let new := t.present.diff s.initial
  let gone := s.initial.diff t.present
  let order := new.toList.flatMap fun dependent =>
    (s.links.requiresOf dependent).flatMap fun need =>
      ((need.2.inter new).erase dependent).toList.map fun dependency => (dependency, dependent)
  let kept := (t.present.inter s.initial).toList.filterMap fun id =>
    (t.reasons.get? id).map fun reason => (id, reason)
  { install := new.toList
    erase := gone.toList
    obsoletes :=
      (sortCmp comparePairs
        (t.obsoleted.filter fun p => new.contains p.1 && gone.contains p.2)).eraseReps
    order := (sortCmp comparePairs order).eraseReps
    reasons := Reasons.ofList ((new.toList.map fun id => (id, s.newReason t id)) ++ kept) }

end Search

namespace Solver

/-- Packages that are protected by name, or by a job as far as they are installed. -/
def guardedPackages (solver : Solver) (u : Universe) (jobs : List Job) : IdSet :=
  let initial := u.installed.members
  let byName := initial.filter fun id => solver.protectedNames.contains (u.get id).name
  let byJob := jobs.flatMap fun job =>
    match job.kind, job.target with
    | .guard, .packages set => set.toList
    | _, _ => []
  byName.union ((IdSet.ofList byJob).inter initial)

theorem mem_initial_of_mem_guardedPackages (solver : Solver) (u : Universe) (jobs : List Job)
    {id : PackageId} (h : id ∈ solver.guardedPackages u jobs) : id ∈ u.installed.members := by
  rcases IdSet.mem_union.mp h with h | h
  · exact (IdSet.mem_filter.mp h).1
  · exact (IdSet.mem_inter.mp h).2

def search (solver : Solver) (u : Universe) (jobs : List Job) : Search :=
  let links := Links.ofUniverse u
  let initial := u.installed.members
  { solver
    pool := u
    links
    policy := { nativeArch := solver.nativeArch <|> u.nativeArch }
    initial
    guarded := solver.guardedPackages u jobs
    tolerated := initial.filter fun id => (links.violationOf? initial id).isSome
    obsoleters := u.considered.toList.filter fun id =>
      !(u.get id).installed && !(u.get id).obsoletes.isEmpty
    links_eq := rfl
    initial_eq := rfl
    guarded_initial := fun _ h => solver.mem_initial_of_mem_guardedPackages u jobs h
    tolerated_eq := rfl
    obsoleters_eq := rfl }

/-- Carry out jobs in order. There are decisions when no job has a problem. -/
def solve (solver : Solver) (u : Universe) (jobs : List Job) (call : Demands) : Solution :=
  let s := solver.search u jobs
  let c := s.precheck jobs
  let start : Progress :=
    { trial := { present := s.initial }, problems := c.problems, notes := c.notes }
  let p := (Search.runnable jobs c.skipped).foldl (s.runJob call) start
  { outcome := if p.problems.isEmpty then .ok (s.decisions p.trial) else .error p.problems
    notes := p.notes }

end Solver

end Depsolve
