import Depsolve.Proofs.Cycle.Diagram
import Depsolve.Proofs.Universe.Sample
/-!
# Frozen goals

Resolving freezes the goal. From then on its jobs stay as they are until the goal is opened
again, so that a plan on its way to an executor is the outcome of the jobs that can be seen.
Dropping the jobs is the one call that does not look whether the goal is frozen.
-/
namespace Depsolve

open Depsolve.Cycle (Call Step)

namespace Cycle

variable {c : Cycle} {k : Call} {turn : Turn (Option Plan)} {goal : Goal}
  {r : Except ProblemSet Plan}

/-- A cycle behind the resolution of a goal, with what the goal came to. -/
structure Frozen (goal : Goal) (r : Except ProblemSet Plan) (c : Cycle) : Prop where
  state : c.state.isFrom .resolveTransaction = true
  goal : c.goal = some goal.freeze
  plan : ∀ p, c.plan = some p → p = .ofOutcome r

namespace Frozen

theorem not_canEnter {s t : CycleState} (h : Frozen goal r c) (hprevious : s.next? = some t)
    (ht : t ≠ .buildTransaction) (hs : s.isFrom .resolveTransaction = false) :
    ¬ c.canEnter t = true := by
  intro hcan
  have hstate := h.state
  rw [state_of_canEnter hcan hprevious ht, hs] at hstate
  cases hstate

/-- Unless the cycle fails, no call changes the goal but dropping its jobs, opening it again
and starting over. -/
theorem step (h : Frozen goal r c) (hstep : Step c k turn) (hk : k.startsOver = false)
    (hreset : k ≠ .resetGoal) (hclosed : turn.cycle.state ≠ .buildTransaction) :
    turn.cycle.state = .failed ∨ Frozen goal r turn.cycle := by
  cases hstep with
  | refused => exact .inr h
  | closed => exact .inr h
  | failed => exact .inl rfl
  | broken => exact .inl rfl
  | configured host config records hs =>
    exact absurd hs (h.not_canEnter (s := .init) rfl nofun rfl)
  | fetched sources repos records hs =>
    exact absurd hs (h.not_canEnter (s := .loadConfig) rfl nofun rfl)
  | loaded u records hs =>
    exact absurd hs (h.not_canEnter (s := .downloadMetadata) rfl nofun rfl)
  | opened => exact absurd rfl hclosed
  | reopened => exact absurd rfl hclosed
  | resolved demands g plan records hs =>
    exact absurd hs (h.not_canEnter (s := .buildTransaction) rfl nofun rfl)
  | unsatisfiable demands g problems records hs =>
    exact absurd hs (h.not_canEnter (s := .buildTransaction) rfl nofun rfl)
  | @handedOver _ part records hpart hs =>
    refine .inr ⟨?_, h.goal, h.plan⟩
    cases part <;> rfl
  | added r demands g records hgoal hfrozen =>
    cases h.goal.symm.trans hgoal
    cases hfrozen
  | frozen => exact .inr h
  | cleared => exact absurd rfl hreset
  | solved solver demands g result records hgoal =>
    cases h.goal.symm.trans hgoal
    exact .inr ⟨h.state, rfl, h.plan⟩
  | took => exact .inr ⟨h.state, h.goal, nofun⟩
  | nothingTaken => exact .inr h
  | startedOver _ hstart => cases hk.symm.trans hstart

theorem perform_addRequest (h : Frozen goal r c) (request : Request) (demands : Demands) :
    c.perform (.addRequest request demands) =
      { cycle := c, result := .error (.goal .frozen) } := by
  rw [perform, addRequest, h.goal]
  rfl

theorem cycle_resolveGoal (h : Frozen goal r c) (solver : Solver) (demands : Demands) :
    (c.perform (.resolveGoal solver demands)).cycle = c := by
  have hgoal : (c.perform (.resolveGoal solver demands)).cycle =
      { c with goal := some goal.freeze } := by
    rw [perform, resolveGoal, h.goal]
    simp only [Goal.resolve_goal]
    rfl
  rw [hgoal, ← h.goal]

end Frozen

theorem frozen_resolve (hstate : c.state = .buildTransaction) (hgoal : c.goal = some goal)
    (demands : Demands) :
    Frozen goal (goal.resolve c.solver demands).result (c.perform (.resolve demands)).cycle := by
  have hcan : c.canEnter .resolveTransaction = true := by rw [canEnter, hstate]; rfl
  generalize hturn : c.perform (.resolve demands) = turn
  have hstep : Step c (.resolve demands) turn := hturn ▸ step_perform c
  cases hstep with
  | refused hk hs => cases hk; cases hs.symm.trans hcan
  | closed hk => cases hk
  | failed e records hk _ _ hnone => cases hk; cases hgoal.symm.trans (hnone rfl)
  | broken e records given hk => cases hk
  | handedOver records hk => cases hk
  | resolved _ g plan records hs hg hplan =>
    cases hgoal.symm.trans hg
    refine ⟨rfl, rfl, fun p hp => ?_⟩
    cases hp
    rw [hplan]
    rfl
  | unsatisfiable _ g problems records hs hg hproblems =>
    cases hgoal.symm.trans hg
    refine ⟨rfl, rfl, fun p hp => ?_⟩
    cases hp
    rw [hproblems]
    rfl
  | startedOver _ hk => cases hk

end Cycle

namespace Session

variable {s : Session} {goal : Goal} {r : Except ProblemSet Plan}

/-- Calls that leave a goal closed: none starts over or drops the jobs, and building is not
entered again. -/
structure StaysClosed (s : Session) (ks : List Call) : Prop where
  keeps : ∀ k ∈ ks, k.startsOver = false ∧ k ≠ .resetGoal
  closed : ∀ part, part <+: ks → (s.run part).cycle.state ≠ .buildTransaction

theorem frozen_run {ks : List Call} (h : s.Staged) (hfrozen : s.cycle.Frozen goal r)
    (hks : s.StaysClosed ks) :
    (s.run ks).cycle.state = .failed ∨ (s.run ks).cycle.Frozen goal r := by
  refine run_unless_failed h hfrozen (fun k hk => (hks.keeps k hk).1)
    fun part k hfront _ hfrozen => ?_
  obtain ⟨hstart, hreset⟩ := hks.keeps k (hfront.subset (by simp))
  have hclosed := hks.closed _ hfront
  rw [run_concat] at hclosed
  exact hfrozen.step (Cycle.step_perform _) hstart hreset hclosed

/-- From the moment of resolving, as long as the goal is not opened again and its jobs are not
dropped, the goal is the one that was resolved, frozen, or it is gone with a cycle that failed.
It takes no requests, solving it by hand leaves it, and what is downloaded, tested and carried
out is what it comes to. -/
theorem goal_stays_frozen (o : CycleOptions) (solver : Solver) (before : List Call)
    (demands : Demands) (after : List Call)
    (hstate : ((start o solver).run before).cycle.state = .buildTransaction)
    (hafter : (((start o solver).run before).call (.resolve demands)).StaysClosed after) :
    let opened := (start o solver).run before
    let s := (opened.call (.resolve demands)).run after
    ∃ goal, opened.cycle.goal = some goal ∧
      (s.cycle.state = .failed ∧ s.cycle.goal = none ∨
        s.cycle.goal = some goal.freeze ∧
        (∀ r d, s.cycle.perform (.addRequest r d) =
          { cycle := s.cycle, result := .error (.goal .frozen) }) ∧
        (∀ x d, (s.cycle.perform (.resolveGoal x d)).cycle = s.cycle) ∧
        (∀ p, s.cycle.state.isFrom .downloadPackages = true → s.cycle.plan = some p →
          (goal.freeze.resolve opened.cycle.solver demands).result = .ok p)) := by
  intro opened s
  have hopened : opened.Staged := (staged_start o solver).run before
  obtain ⟨goal, hover⟩ := hopened.exists_over (by rw [hstate]; rfl)
  refine ⟨goal, hover.goal, ?_⟩
  have hresolved : (opened.call (.resolve demands)).Staged := hopened.call _
  have hs : s.Staged := hresolved.run after
  rcases frozen_run hresolved (Cycle.frozen_resolve hstate hover.goal demands) hafter with
    hfailed | hfrozen
  · exact .inl ⟨hfailed, hs.goal_eq_none (by rw [hfailed]; rfl)⟩
  · refine .inr ⟨hfrozen.goal, hfrozen.perform_addRequest, hfrozen.cycle_resolveGoal,
      fun p hfrom hplan => ?_⟩
    have hgood := hs.problems_eq_nil hfrom hplan
    rw [hfrozen.plan p hplan] at hgood ⊢
    rw [Goal.resolve_freeze_result]
    exact Plan.eq_ok_ofOutcome ⟨goal, opened.cycle.solver, demands, rfl⟩ hgood

def toolWanted : List Call :=
  [.loadConfig {}, .downloadMetadata [⟨"base", defaultPriority, .memory [.noarch "tool" "1"]⟩],
    .loadSack, .buildTransaction, .addRequest (.installDependency { name := "tool" }) {}]

/-- The plan that is downloaded for the tool is the outcome of a goal that takes no requests. -/
theorem toolWanted_stays_frozen :
    let opened := (start { preset := some {} } (Settings.solver {})).run toolWanted
    let s := (opened.call (.resolve {})).run [.downloadPackages { execute := fun _ _ => .ok () }]
    opened.cycle.state = .buildTransaction ∧ s.cycle.state = .downloadPackages ∧
    ∃ goal, opened.cycle.goal = some goal ∧ s.cycle.goal = some goal.freeze ∧
      (∀ r d, s.cycle.perform (.addRequest r d) =
        { cycle := s.cycle, result := .error (.goal .frozen) }) ∧
      ∀ p, s.cycle.plan = some p →
        (goal.freeze.resolve opened.cycle.solver {}).result = .ok p := by
  intro opened s
  have hopened : opened.cycle.state = .buildTransaction := by decide +kernel
  have hstate : s.cycle.state = .downloadPackages := by decide +kernel
  have hclosed : (opened.call (.resolve {})).StaysClosed
      [.downloadPackages { execute := fun _ _ => .ok () }] := by
    refine ⟨by simp [Cycle.Call.startsOver], fun part hpart => ?_⟩
    rcases List.prefix_cons_iff.mp hpart with rfl | ⟨rest, rfl, hrest⟩
    · decide +kernel
    · rw [List.prefix_nil.mp hrest]
      decide +kernel
  obtain ⟨goal, hgoal, ⟨hfailed, -⟩ | ⟨hfrozen, hadd, -, hplan⟩⟩ :=
    goal_stays_frozen { preset := some {} } (Settings.solver {}) toolWanted {} _ hopened hclosed
  · cases hstate.symm.trans hfailed
  · have hfrom : s.cycle.state.isFrom .downloadPackages = true := by rw [hstate]; rfl
    exact ⟨hopened, hstate, goal, hgoal, hfrozen, hadd, fun p => hplan p hfrom⟩

/-- Dropping the jobs of a frozen goal empties it and lets it take requests, while its plan is
on the way to be carried out. -/
theorem toolWanted_dropped :
    let opened := (start { preset := some {} } (Settings.solver {})).run toolWanted
    let s := (opened.call (.resolve {})).run [.downloadPackages { execute := fun _ _ => .ok () }]
    s.cycle.state = .downloadPackages ∧
    (s.cycle.goal.map fun g => (g.size, g.frozen)) = some (1, true) ∧
    (s.call .resetGoal).cycle.state = .downloadPackages ∧
    ((s.call .resetGoal).cycle.goal.map fun g => (g.size, g.frozen)) = some (0, false) ∧
    (s.call .resetGoal).cycle.plan.map Plan.size = some 1 := by decide +kernel

end Session

end Depsolve
