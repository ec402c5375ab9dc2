import Depsolve.Cycle
/-!
# Sessions

Everything that a caller can do with a cycle is one of a few calls. A session is a
cycle with the calls that were made on it and what came of each of them.
-/
namespace Depsolve

/-- The parts of an executor, in the order in which a plan passes through them. -/
inductive ExecutorPart where
  | download
  | test
  | execute
deriving DecidableEq

namespace ExecutorPart

def all : List ExecutorPart := [.download, .test, .execute]

def state : ExecutorPart → CycleState
  | .download => .downloadPackages
  | .test => .testTransaction
  | .execute => .transaction

end ExecutorPart

/-- A result of another type, with the same effects. -/
def Turn.map {α β : Type} (f : α → β) (t : Turn α) : Turn β where
  cycle := t.cycle
  result := t.result.map f
  records := t.records
  handed := t.handed

namespace Cycle

/-- Solve the goal by hand. The goal is frozen, and the cycle does not learn of the plan. -/
def resolveGoal (c : Cycle) (solver : Solver) (demands : Demands) : Turn Plan :=
  match c.goal with
  | none => { cycle := c, result := .error (.transition c.state .buildTransaction) }
  | some goal =>
    let r := goal.resolve solver demands
    { cycle := { c with goal := some r.goal }
      result := r.result.mapError .unsatisfiable
      records := r.records }

inductive Call where
  | loadConfig (host : Host)
  | downloadMetadata (sources : List Source)
  | loadSack
  | buildTransaction
  | addRequest (r : Request) (demands : Demands)
  | resetGoal
  | resolveGoal (solver : Solver) (demands : Demands)
  | resolve (demands : Demands)
  | downloadPackages (x : Executor)
  | testTransaction (x : Executor)
  | runTransaction (x : Executor)
  | takePlan
  | abandon
  | reset

namespace Call

def enters? : Call → Option CycleState
  | .loadConfig _ => some .loadConfig
  | .downloadMetadata _ => some .downloadMetadata
  | .loadSack => some .loadSack
  | .buildTransaction => some .buildTransaction
  | .resolve _ => some .resolveTransaction
  | .downloadPackages _ => some .downloadPackages
  | .testTransaction _ => some .testTransaction
  | .runTransaction _ => some .transaction
  | _ => none

def part? : Call → Option ExecutorPart
  | .downloadPackages _ => some .download
  | .testTransaction _ => some .test
  | .runTransaction _ => some .execute
  | _ => none

/-- Whether a call works on the goal, in whatever state the cycle is. -/
def usesGoal : Call → Bool
  | .addRequest .. | .resetGoal | .resolveGoal .. => true
  | _ => false

def startsOver : Call → Bool
  | .abandon | .reset => true
  | _ => false

/-- The state that a refusal of the call names. -/
def wants? (k : Call) : Option CycleState :=
  if k.usesGoal then some .buildTransaction else k.enters?

end Call

def perform (c : Cycle) : Call → Turn (Option Plan)
  | .loadConfig host => (c.loadConfig host).map fun _ => none
  | .downloadMetadata sources => (c.downloadMetadata sources).map fun _ => none
  | .loadSack => c.loadSack.map fun _ => none
  | .buildTransaction => c.buildTransaction.map fun _ => none
  | .addRequest r demands => (c.addRequest r demands).map fun _ => none
  | .resetGoal => c.resetGoal.map fun _ => none
  | .resolveGoal solver demands => (c.resolveGoal solver demands).map some
  | .resolve demands => (c.resolve demands).map some
  | .downloadPackages x => (c.downloadPackages x).map fun _ => none
  | .testTransaction x => (c.testTransaction x).map fun _ => none
  | .runTransaction x => (c.runTransaction x).map fun _ => none
  | .takePlan => { cycle := c.takePlan.2, result := .ok c.takePlan.1 }
  | .abandon => { cycle := c.abandon.1, result := .ok none, records := c.abandon.2 }
  | .reset => { cycle := c.reset, result := .ok none }

structure Event where
  call : Call
  turn : Turn (Option Plan)

end Cycle

structure Session where
  cycle : Cycle
  events : List Cycle.Event := []

namespace Session

/-- A new cycle, with the solver that it has until the configuration is there. -/
def start (o : CycleOptions) (solver : Solver) : Session := { cycle := { options := o, solver } }

def call (s : Session) (k : Cycle.Call) : Session where
  cycle := (s.cycle.perform k).cycle
  events := s.events ++ [⟨k, s.cycle.perform k⟩]

def run (s : Session) (ks : List Cycle.Call) : Session := ks.foldl call s

theorem run_concat (s : Session) (ks : List Cycle.Call) (k : Cycle.Call) :
    s.run (ks ++ [k]) = (s.run ks).call k := by
  rw [run, List.foldl_append]
  rfl

theorem run_keeps {P : Session → Prop} {s : Session} {ks : List Cycle.Call} (hstart : P s)
    (hcall : ∀ s, ∀ k ∈ ks, P s → P (s.call k)) : P (s.run ks) := by
  induction ks generalizing s with
  | nil => exact hstart
  | cons k ks ih =>
    exact ih (hcall s k List.mem_cons_self hstart) fun s k hk =>
      hcall s k (List.mem_cons_of_mem _ hk)

end Session

end Depsolve
