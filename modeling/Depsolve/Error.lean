import Depsolve.Config
import Depsolve.Cycle.State
import Depsolve.Goal
/-!
# Errors

Everything that can go wrong between reading the configuration and carrying out a plan.
-/
namespace Depsolve

inductive ResolveError where
  | load (e : LoadError)
  | mismatch (e : UniverseMismatch)
  | selector (e : SelectorError)
  | goal (e : GoalError)
  | unsatisfiable (problems : ProblemSet)
  | transition (source target : CycleState)
  | config (e : ConfigError)
  | dependency (e : EvrError)

def ResolveError.message : ResolveError → String
  | .load e => e.message
  | .mismatch e => e.message
  | .selector e => e.message
  | .goal e => e.message
  | .unsatisfiable problems => s!"Could not resolve dependencies: {problems.text}"
  | .transition source target => s!"Cannot move from {source.text} to {target.text}"
  | .config e => e.message
  | .dependency e => e.message

end Depsolve
