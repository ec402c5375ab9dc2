import Depsolve.Log
import Depsolve.Plan.Materialize
import Depsolve.Request
import Depsolve.Solver.Solve
/-!
# Goals

The jobs of one cycle, in the order in which they were added. Jobs are never
merged. Once resolution has started the goal is frozen.
-/
namespace Depsolve

structure Goal where
  pool : Universe
  jobs : List Job := []
  frozen : Bool := false

inductive GoalError where
  | frozen
deriving DecidableEq

def GoalError.message : GoalError → String
  | .frozen => "Goal can no longer be modified once resolution has started"

namespace Goal

def logTarget : String := "rpmsolve::goal"

def size (g : Goal) : Nat := g.jobs.length

def isEmpty (g : Goal) : Bool := g.jobs.isEmpty

def add (g : Goal) (r : Request) (demands : Demands) :
    Except GoalError (Goal × List LogRecord) :=
  if g.frozen then .error .frozen
  else
    let job := r.job g.pool demands
    .ok ({ g with jobs := g.jobs ++ [job] }, [⟨.debug, logTarget, s!"added job {job.text}"⟩])

def hasAction (g : Goal) (kind : JobKind) : Bool := g.jobs.any (·.kind == kind)

def actions (g : Goal) : List JobKind := JobKind.all.filter g.hasAction

/-- Drop every job and accept jobs again. -/
def reset (g : Goal) : Goal := { g with jobs := [], frozen := false }

def freeze (g : Goal) : Goal := { g with frozen := true }

def thaw (g : Goal) : Goal := { g with frozen := false }

structure Resolution where
  goal : Goal
  result : Except ProblemSet Plan
  records : List LogRecord

def noteRecord (n : Note) : LogRecord := ⟨.debug, "rpmsolve::solver", n.text⟩

/-- Freeze the goal and solve all its jobs once. -/
def resolve (g : Goal) (solver : Solver) (demands : Demands) : Resolution :=
  let solution := solver.solve g.pool g.jobs demands
  let records :=
    ⟨.debug, logTarget, s!"resolving {g.size} job(s)"⟩ :: solution.notes.map noteRecord
  match solution.outcome with
  | .ok d => ⟨g.freeze, .ok (Plan.materialize g.pool d), records⟩
  | .error problems =>
    ⟨g.freeze, .error problems,
      records ++ [⟨.info, logTarget, ProblemSet.describe problems⟩]⟩

end Goal

end Depsolve
