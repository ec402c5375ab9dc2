import Depsolve.Cycle.Session
/-!
# What a call can do to a cycle

One rule for each way a call can go: it is refused, it enters a state and does the
work of that state, it fails there, or it touches the goal or the plan only. Every
call goes one of these ways.
-/
namespace Depsolve

theorem Goal.resolve_goal (g : Goal) (solver : Solver) (demands : Demands) :
    (g.resolve solver demands).goal = g.freeze := by
  rw [Goal.resolve]
  split <;> rfl

namespace Cycle

namespace Call

variable {k : Call} {s : CycleState}

theorem startsOver_of_enters? (h : k.enters? = some s) : k.startsOver = false := by
  cases k <;> first | rfl | cases h

theorem usesGoal_of_enters? (h : k.enters? = some s) : k.usesGoal = false := by
  cases k <;> first | rfl | cases h

theorem startsOver_of_usesGoal (h : k.usesGoal = true) : k.startsOver = false := by
  cases k <;> first | rfl | cases h

theorem startsOver_of_part? {part : ExecutorPart} (h : k.part? = some part) :
    k.startsOver = false := by
  cases k <;> first | rfl | cases h

theorem enters?_of_part? {part : ExecutorPart} (h : k.part? = some part) :
    k.enters? = some part.state := by
  cases k <;> first | cases h; rfl | cases h

theorem ne_failed_of_enters? (h : k.enters? = some s) : s ≠ .failed := by
  cases k <;> cases h <;> exact nofun

theorem wants?_of_enters? (h : k.enters? = some s) : k.wants? = some s := by
  rw [wants?, usesGoal_of_enters? h]
  exact h

end Call

def enter (c : Cycle) (s : CycleState) : Cycle :=
  { c with state := s, history := c.history ++ [s] }

def failed (c : Cycle) : Cycle :=
  { c with
    state := .failed
    history := c.history ++ [.failed]
    metadata := []
    pool := none
    goal := none
    plan := none }

/-- What an executor is given, if there is both. -/
def custody? (c : Cycle) : Option (Universe × Plan) :=
  match c.pool, c.plan with
  | some u, some plan => some (u, plan)
  | _, _ => none

inductive Step (c : Cycle) : Call → Turn (Option Plan) → Prop
  | refused {k : Call} {s : CycleState} (hk : k.enters? = some s) (hs : c.canEnter s = false) :
      Step c k { cycle := c, result := .error (.transition c.state s) }
  /-- There is no goal yet, or none any more. -/
  | closed {k : Call} (hk : k.usesGoal = true) (hgoal : c.goal = none) :
      Step c k { cycle := c, result := .error (.transition c.state .buildTransaction) }
  /-- The work of the state fails. Resolving does so only without a goal. -/
  | failed {k : Call} {s : CycleState} (e : ResolveError) (records : List LogRecord)
      (hk : k.enters? = some s) (hpart : k.part? = none) (hs : c.canEnter s = true)
      (hgoal : s = .resolveTransaction → c.goal = none) :
      Step c k { cycle := (c.enter s).failed, result := .error e, records }
  /-- The executor fails. -/
  | broken {k : Call} {part : ExecutorPart} (e : ResolveError) (records : List LogRecord)
      (given : Universe × Plan) (hk : k.part? = some part) (hs : c.canEnter part.state = true)
      (hgiven : c.custody? = some given) :
      Step c k { cycle := (c.enter part.state).failed, result := .error e, records
                 handed := some given }
  | configured (host : Host) (config : Config) (records : List LogRecord)
      (hs : c.canEnter .loadConfig = true) :
      Step c (.loadConfig host)
        { cycle := { c.enter .loadConfig with config, solver := config.settings.solver }
          result := .ok none, records }
  | fetched (sources : List Source) (repos : List Repository) (records : List LogRecord)
      (hs : c.canEnter .downloadMetadata = true) :
      Step c (.downloadMetadata sources)
        { cycle := { c.enter .downloadMetadata with metadata := repos }
          result := .ok none, records }
  | loaded (u : Universe) (records : List LogRecord) (hs : c.canEnter .loadSack = true) :
      Step c .loadSack
        { cycle := {
            (c.enter .loadSack).enter .sackReady with
            metadata := [], pool := some u, generation := c.generation + 1 }
          result := .ok none, records }
  | opened (u : Universe) (records : List LogRecord) (hs : c.canEnter .buildTransaction = true)
      (hgoal : c.goal = none) (hpool : c.pool = some u) :
      Step c .buildTransaction
        { cycle := { c.enter .buildTransaction with goal := some { pool := u } }
          result := .ok none, records }
  | reopened (goal : Goal) (records : List LogRecord) (hs : c.canEnter .buildTransaction = true)
      (hgoal : c.goal = some goal) :
      Step c .buildTransaction
        { cycle := { c.enter .buildTransaction with goal := some goal.thaw, plan := none }
          result := .ok none, records }
  | resolved (demands : Demands) (goal : Goal) (plan : Plan) (records : List LogRecord)
      (hs : c.canEnter .resolveTransaction = true) (hgoal : c.goal = some goal)
      (hplan : (goal.resolve c.solver demands).result = .ok plan) :
      Step c (.resolve demands)
        { cycle := {
            c.enter .resolveTransaction with
            goal := some goal.freeze, plan := some plan, problems := [] }
          result := .ok (some plan), records }
  | unsatisfiable (demands : Demands) (goal : Goal) (problems : ProblemSet)
      (records : List LogRecord)
      (hs : c.canEnter .resolveTransaction = true) (hgoal : c.goal = some goal)
      (hproblems : (goal.resolve c.solver demands).result = .error problems) :
      Step c (.resolve demands)
        { cycle := {
            c.enter .resolveTransaction with
            goal := some goal.freeze, plan := some (.failed problems), problems }
          result := .error (.unsatisfiable problems), records }
  /-- The executor is done, or there was nothing to give it. -/
  | handedOver {k : Call} {part : ExecutorPart} (records : List LogRecord)
      (hk : k.part? = some part) (hs : c.canEnter part.state = true) :
      Step c k
        { cycle := { c.enter part.state with executed := c.executed || part == .execute }
          result := .ok none, records, handed := c.custody? }
  | added (r : Request) (demands : Demands) (goal : Goal) (records : List LogRecord)
      (hgoal : c.goal = some goal) (hfrozen : goal.frozen = false) :
      Step c (.addRequest r demands)
        { cycle := { c with goal := some { goal with
            jobs := goal.jobs ++ [r.job goal.pool demands] } }
          result := .ok none, records }
  | frozen (r : Request) (demands : Demands) (goal : Goal) (hgoal : c.goal = some goal)
      (hfrozen : goal.frozen = true) :
      Step c (.addRequest r demands) { cycle := c, result := .error (.goal .frozen) }
  | cleared (goal : Goal) (hgoal : c.goal = some goal) :
      Step c .resetGoal { cycle := { c with goal := some goal.reset }, result := .ok none }
  | solved (solver : Solver) (demands : Demands) (goal : Goal)
      (result : Except ResolveError (Option Plan)) (records : List LogRecord)
      (hgoal : c.goal = some goal) :
      Step c (.resolveGoal solver demands)
        { cycle := { c with goal := some goal.freeze }, result, records }
  | took (hstate : c.state = .transaction) (hexecuted : c.executed = true) :
      Step c .takePlan { cycle := { c with plan := none }, result := .ok c.plan }
  | nothingTaken (h : (c.state == .transaction && c.executed) = false) :
      Step c .takePlan { cycle := c, result := .ok none }
  | startedOver {k : Call} (records : List LogRecord) (hk : k.startsOver = true) :
      Step c k { cycle := c.reset, result := .ok none, records }

theorem perform_refused (c : Cycle) {k : Call} {s : CycleState} (hk : k.enters? = some s)
    (hs : c.canEnter s = false) :
    c.perform k = { cycle := c, result := .error (.transition c.state s) } := by
  cases k <;> cases hk <;>
    exact congrArg (Turn.map _) (if_neg (Bool.eq_false_iff.mp hs))

theorem perform_closed (c : Cycle) {k : Call} (hk : k.usesGoal = true) (hgoal : c.goal = none) :
    c.perform k = { cycle := c, result := .error (.transition c.state .buildTransaction) } := by
  cases k <;> cases hk <;>
    simp [perform, addRequest, resetGoal, resolveGoal, hgoal, Turn.map, Except.map]

section Calls

variable (c : Cycle) {k : Call} {s : CycleState}

/-- A call that enters a state is refused, or does its work in that state. -/
theorem step_entering {α : Type} {f : α → Option Plan} {work : Cycle → Turn α}
    (hk : k.enters? = some s)
    (hwork : c.canEnter s = true → ∀ front, Step c k (((work (c.enter s)).after front).map f)) :
    Step c k ((c.entering s work).map f) := by
  rw [entering]
  split
  · next hs => exact hwork hs _
  · next hs => exact .refused hk (Bool.eq_false_iff.mpr hs)

theorem step_loadConfig (host : Host) :
    Step c (.loadConfig host) (c.perform (.loadConfig host)) := by
  refine step_entering c rfl fun hs front => ?_
  cases hconfig : configFor (c.enter .loadConfig).options host with
  | ok config => exact .configured host config _ hs
  | error e => exact .failed _ _ rfl rfl hs nofun

theorem step_downloadMetadata (sources : List Source) :
    Step c (.downloadMetadata sources) (c.perform (.downloadMetadata sources)) := by
  refine step_entering c rfl fun hs front => ?_
  rcases fetchAll (c.enter .downloadMetadata).config.settings.cacheOnly sources with
    ⟨records, repos | e⟩
  · exact .failed _ _ rfl rfl hs nofun
  · exact .fetched sources _ _ hs

theorem step_loadSack : Step c .loadSack (c.perform .loadSack) := by
  refine step_entering c rfl fun hs front => ?_
  dsimp only
  split
  · exact .failed _ _ rfl rfl hs nofun
  · next u _ => exact .loaded u _ hs

theorem step_buildTransaction : Step c .buildTransaction (c.perform .buildTransaction) := by
  refine step_entering c rfl fun hs front => ?_
  split
  · next goal hgoal => exact .reopened goal _ hs hgoal
  · next u hgoal hpool => exact .opened u _ hs hgoal hpool
  · exact .failed _ _ rfl rfl hs nofun

theorem step_resolve (demands : Demands) :
    Step c (.resolve demands) (c.perform (.resolve demands)) := by
  refine step_entering c rfl fun hs front => ?_
  split
  · next hgoal => exact .failed _ _ rfl rfl hs fun _ => hgoal
  · next goal hgoal =>
    simp only [Goal.resolve_goal]
    split
    · next plan hplan => exact .resolved demands goal plan _ hs hgoal hplan
    · next problems hproblems => exact .unsatisfiable demands goal problems _ hs hgoal hproblems

theorem step_handOver (part : ExecutorPart) (hk : k.part? = some part)
    (hs : c.canEnter part.state = true)
    (call : Universe → Plan → Except ResolveError Unit) {done : Cycle → Turn Unit}
    (back front : List LogRecord)
    (hdone : ∀ c' : Cycle, done c' =
      ({ c' with executed := c'.executed || part == ExecutorPart.execute }.succeed ()).after back) :
    Step c k ((((c.enter part.state).handOver call done).after front).map fun _ => none) := by
  rw [handOver]
  split
  · next u plan hpool hplan =>
    have hgiven : c.custody? = some (u, plan) := by
      rw [custody?, show c.pool = some u from hpool, show c.plan = some plan from hplan]
    split
    · have h := Step.handedOver (front ++ (back ++ [])) hk hs
      rw [hgiven] at h
      rw [hdone]
      exact h
    · exact .broken _ _ _ hk hs hgiven
  · next hnone =>
    have hgiven : c.custody? = none := by
      rw [custody?]
      split
      · next u plan hpool hplan => exact absurd hplan (hnone u plan hpool)
      · rfl
    have h := Step.handedOver (front ++ (back ++ [])) hk hs
    rw [hgiven] at h
    rw [hdone]
    exact h

theorem executed_unless {part : ExecutorPart} (hpart : part ≠ .execute) :
    { c with executed := c.executed || part == .execute } = c := by
  rw [beq_false_of_ne hpart, Bool.or_false]

theorem step_downloadPackages (x : Executor) :
    Step c (.downloadPackages x) (c.perform (.downloadPackages x)) := by
  refine step_entering c rfl fun hs front =>
    step_handOver c .download rfl hs x.download [] front fun c' => ?_
  rw [executed_unless c' (by decide)]
  rfl

theorem step_testTransaction (x : Executor) :
    Step c (.testTransaction x) (c.perform (.testTransaction x)) := by
  refine step_entering c rfl fun hs front =>
    step_handOver c .test rfl hs x.test [] front fun c' => ?_
  rw [executed_unless c' (by decide)]
  rfl

theorem step_runTransaction (x : Executor) :
    Step c (.runTransaction x) (c.perform (.runTransaction x)) := by
  refine step_entering c rfl fun hs front =>
    step_handOver c .execute rfl hs x.execute [record .info "transaction complete"] front
      fun c' => ?_
  simp

theorem step_addRequest (r : Request) (demands : Demands) :
    Step c (.addRequest r demands) (c.perform (.addRequest r demands)) := by
  rw [perform, addRequest]
  split
  · next hgoal => exact .closed rfl hgoal
  · next goal hgoal =>
    rw [Goal.add]
    by_cases hfrozen : goal.frozen = true
    · rw [if_pos hfrozen]
      exact .frozen r demands goal hgoal hfrozen
    · rw [if_neg hfrozen]
      exact .added r demands goal _ hgoal (Bool.eq_false_iff.mpr hfrozen)

theorem step_resetGoal : Step c .resetGoal (c.perform .resetGoal) := by
  rw [perform, resetGoal]
  split
  · next hgoal => exact .closed rfl hgoal
  · next goal hgoal => exact .cleared goal hgoal

theorem step_resolveGoal (solver : Solver) (demands : Demands) :
    Step c (.resolveGoal solver demands) (c.perform (.resolveGoal solver demands)) := by
  rw [perform, resolveGoal]
  split
  · next hgoal => exact .closed rfl hgoal
  · next goal hgoal =>
    simp only [Goal.resolve_goal]
    exact .solved solver demands goal _ _ hgoal

theorem step_takePlan : Step c .takePlan (c.perform .takePlan) := by
  rw [perform, takePlan]
  cases h : c.state == .transaction && c.executed with
  | true =>
    rw [Bool.and_eq_true, beq_iff_eq] at h
    exact .took h.1 h.2
  | false => exact .nothingTaken h

/-- Every call goes by one of the rules. -/
theorem step_perform : Step c k (c.perform k) := by
  cases k with
  | loadConfig host => exact step_loadConfig c host
  | downloadMetadata sources => exact step_downloadMetadata c sources
  | loadSack => exact step_loadSack c
  | buildTransaction => exact step_buildTransaction c
  | addRequest r demands => exact step_addRequest c r demands
  | resetGoal => exact step_resetGoal c
  | resolveGoal solver demands => exact step_resolveGoal c solver demands
  | resolve demands => exact step_resolve c demands
  | downloadPackages x => exact step_downloadPackages c x
  | testTransaction x => exact step_testTransaction c x
  | runTransaction x => exact step_runTransaction c x
  | takePlan => exact step_takePlan c
  | abandon => exact .startedOver _ rfl
  | reset => exact .startedOver _ rfl

end Calls

end Cycle

end Depsolve
