import Depsolve.Proofs.Cycle.Ledger
/-!
# The stages of a cycle

What a cycle holds in each of its states, and what its ledger says there. The universe, the
goal and the plan are independent fields of a cycle, so that nothing but the way it came to a
state ties them to that state.
-/
namespace Depsolve

namespace Goal

variable {g : Goal} {solver : Solver} {demands : Demands}

def IsOutcome (r : Except ProblemSet Plan) : Prop :=
  ∃ (g : Goal) (solver : Solver) (demands : Demands), (g.resolve solver demands).result = r

theorem resolve_result :
    (g.resolve solver demands).result =
      (solver.solve g.pool g.jobs demands).outcome.map (Plan.materialize g.pool) := by
  rw [resolve]
  split
  · next h => rw [h]; rfl
  · next h => rw [h]; rfl

@[simp] theorem resolve_freeze_result :
    (g.freeze.resolve solver demands).result = (g.resolve solver demands).result := by
  rw [resolve_result, resolve_result]
  rfl

theorem problems_ne_nil {u : Universe} {jobs : List Job} {problems : ProblemSet}
    (h : (solver.solve u jobs demands).outcome = .error problems) : problems ≠ [] := by
  simp only [Solver.solve] at h
  split at h
  · cases h
  · next hproblems =>
    cases h
    exact fun hnil => hproblems (List.isEmpty_iff.mpr hnil)

theorem IsOutcome.problems_eq_nil {p : Plan} (h : IsOutcome (.ok p)) : p.problems = [] := by
  obtain ⟨g, solver, demands, h⟩ := h
  rw [resolve_result] at h
  cases houtcome : (solver.solve g.pool g.jobs demands).outcome with
  | error problems => rw [houtcome] at h; cases h
  | ok d => rw [houtcome] at h; cases h; rfl

theorem IsOutcome.ne_nil {problems : ProblemSet} (h : IsOutcome (.error problems)) :
    problems ≠ [] := by
  obtain ⟨g, solver, demands, h⟩ := h
  rw [resolve_result] at h
  cases houtcome : (solver.solve g.pool g.jobs demands).outcome with
  | error problems' => rw [houtcome] at h; cases h; exact problems_ne_nil houtcome
  | ok d => rw [houtcome] at h; cases h

end Goal

/-- The plan that a cycle keeps of an outcome. -/
def Plan.ofOutcome : Except ProblemSet Plan → Plan
  | .ok p => p
  | .error problems => .failed problems

theorem Plan.isSuccess_ofOutcome {r : Except ProblemSet Plan} (hr : Goal.IsOutcome r) :
    (Plan.ofOutcome r).isSuccess = true ↔ ∃ p, r = .ok p := by
  rw [isSuccess, List.isEmpty_iff]
  cases r with
  | ok p => exact ⟨fun _ => ⟨p, rfl⟩, fun _ => hr.problems_eq_nil⟩
  | error problems => exact ⟨fun h => absurd h hr.ne_nil, nofun⟩

theorem Plan.eq_ok_ofOutcome {r : Except ProblemSet Plan} (hr : Goal.IsOutcome r)
    (h : (Plan.ofOutcome r).problems = []) : r = .ok (.ofOutcome r) := by
  obtain ⟨p, rfl⟩ := (isSuccess_ofOutcome hr).mp (List.isEmpty_iff.mpr h)
  rfl

/-- The parts that a plan passes through before this one. -/
def ExecutorPart.before (x : ExecutorPart) : List ExecutorPart := all.takeWhile (· != x)

namespace CycleState

/-- Whether a cycle in a state has come as far as a first one, and has not failed. -/
def isFrom (s first : CycleState) : Bool := s != .failed && all.idxOf first ≤ all.idxOf s

theorem eq_of_next? {s s' t : CycleState} (h : s.next? = some t) (h' : s'.next? = some t) :
    s = s' := by
  cases s <;> cases h <;> cases s' <;> first | rfl | cases h'

end CycleState

namespace Cycle

variable {c : Cycle} {s t : CycleState} {l : Ledger}

theorem canEnter_iff : c.canEnter t = true ↔
    (c.state.next? = some t ∧ (t = .downloadPackages → c.hasGoodPlan = true)) ∨
    (c.state = .resolveTransaction ∧ t = .buildTransaction ∧ c.hasGoodPlan = false) := by
  rw [canEnter]
  split
  · next hnext =>
    have hback : ¬(c.state = .resolveTransaction ∧ t = .buildTransaction) := by
      rintro ⟨hs, ht⟩
      rw [hs, ht] at hnext
      cases hnext
    simp only [bne, Bool.or_eq_true, Bool.not_eq_true', beq_eq_false_iff_ne, hnext, true_and]
    constructor
    · rintro (hne | hgood)
      · exact .inl fun h => absurd h hne
      · exact .inl fun _ => hgood
    · rintro (hgood | ⟨hs, ht, -⟩)
      · exact (Decidable.em (t = .downloadPackages)).symm.imp_right hgood
      · exact absurd ⟨hs, ht⟩ hback
  · next hnext => simp [hnext, and_assoc]

theorem state_of_canEnter (h : c.canEnter t = true) (hprevious : s.next? = some t)
    (ht : t ≠ .buildTransaction) : c.state = s := by
  rcases canEnter_iff.mp h with ⟨hnext, -⟩ | ⟨-, hback, -⟩
  · exact CycleState.eq_of_next? hnext hprevious
  · exact absurd hback ht

theorem state_of_canEnter_build (h : c.canEnter .buildTransaction = true) :
    c.state = .sackReady ∨ c.state = .resolveTransaction := by
  rcases canEnter_iff.mp h with ⟨hnext, -⟩ | ⟨hs, -⟩
  · exact .inl (CycleState.eq_of_next? hnext rfl)
  · exact .inr hs

theorem ne_transaction_of_canEnter (h : c.canEnter t = true) : c.state ≠ .transaction := by
  intro hs
  simp [canEnter, hs, CycleState.next?] at h

structure Blank (l : Ledger) (c : Cycle) : Prop where
  pool : c.pool = none
  goal : c.goal = none
  plan : c.plan = none
  executed : c.executed = false
  ledger : l = {}

/-- A cycle with a goal over its universe. -/
structure Over (g : Goal) (c : Cycle) : Prop where
  pool : c.pool = some g.pool
  goal : c.goal = some g

/-- A cycle whose plan was handed to a part of an executor that is done. -/
structure Carried (x : ExecutorPart) (g : Goal) (p : Plan) (l : Ledger) (c : Cycle) : Prop
    extends Over g c where
  outcome : Goal.IsOutcome (.ok p)
  plan : c.plan = some p
  executed : c.executed = (x == .execute)
  ledger : l = {
    resolution := some (.ok p), parts := x.before ++ [x], completed := x == .execute }

/-- What a cycle holds in a state, and what its ledger says. -/
inductive Stage (l : Ledger) (c : Cycle) : CycleState → Prop
  | init (h : Blank l c) : Stage l c .init
  | configured (h : Blank l c) : Stage l c .loadConfig
  | fetched (h : Blank l c) : Stage l c .downloadMetadata
  | ready (u : Universe) (hpool : c.pool = some u) (hgoal : c.goal = none)
      (hplan : c.plan = none) (hexecuted : c.executed = false) (hledger : l = {}) :
      Stage l c .sackReady
  | opened (g : Goal) (resolution : Option (Except ProblemSet Plan)) (hover : Over g c)
      (hplan : c.plan = none) (hexecuted : c.executed = false) (hledger : l = { resolution }) :
      Stage l c .buildTransaction
  | resolved (g : Goal) (r : Except ProblemSet Plan) (hr : Goal.IsOutcome r) (hover : Over g c)
      (hplan : c.plan = some (.ofOutcome r)) (hproblems : c.problems = (Plan.ofOutcome r).problems)
      (hexecuted : c.executed = false) (hledger : l = { resolution := some r }) :
      Stage l c .resolveTransaction
  | downloaded (g : Goal) (p : Plan) (h : Carried .download g p l c) : Stage l c .downloadPackages
  | tested (g : Goal) (p : Plan) (h : Carried .test g p l c) : Stage l c .testTransaction
  | done (g : Goal) (p : Plan) (h : Carried .execute g p l c) : Stage l c .transaction
  | taken (g : Goal) (p : Plan) (hover : Over g c) (hplan : c.plan = none)
      (hexecuted : c.executed = true)
      (hledger : l = {
        resolution := some (.ok p), parts := ExecutorPart.all, completed := true, taken := [p] }) :
      Stage l c .transaction
  | failed (hpool : c.pool = none) (hgoal : c.goal = none) (hplan : c.plan = none)
      (hparts : l.parts <+: ExecutorPart.all) (hcompleted : l.completed = false)
      (htaken : l.taken = []) : Stage l c .failed

theorem Over.exchange {g g' : Goal} (h : Over g c) (hsame : g'.pool = g.pool) :
    Over g' { c with goal := some g' } :=
  ⟨by rw [hsame]; exact h.pool, rfl⟩

theorem Carried.exchange {x : ExecutorPart} {g g' : Goal} {p : Plan} (h : Carried x g p l c)
    (hsame : g'.pool = g.pool) : Carried x g' p l { c with goal := some g' } :=
  ⟨h.toOver.exchange hsame, h.outcome, h.plan, h.executed, h.ledger⟩

namespace Stage

theorem exchange {g g' : Goal} (h : Stage l c s) (hgoal : c.goal = some g)
    (hsame : g'.pool = g.pool) : Stage l { c with goal := some g' } s := by
  cases h with
  | init h => cases hgoal.symm.trans h.goal
  | configured h => cases hgoal.symm.trans h.goal
  | fetched h => cases hgoal.symm.trans h.goal
  | ready _ _ hnone => cases hgoal.symm.trans hnone
  | failed _ hnone => cases hgoal.symm.trans hnone
  | opened g₀ resolution hover hplan hexecuted hledger =>
    cases hgoal.symm.trans hover.goal
    exact .opened g' resolution (hover.exchange hsame) hplan hexecuted hledger
  | resolved g₀ r hr hover hplan hproblems hexecuted hledger =>
    cases hgoal.symm.trans hover.goal
    exact .resolved g' r hr (hover.exchange hsame) hplan hproblems hexecuted hledger
  | downloaded g₀ p h =>
    cases hgoal.symm.trans h.goal
    exact .downloaded g' p (h.exchange hsame)
  | tested g₀ p h =>
    cases hgoal.symm.trans h.goal
    exact .tested g' p (h.exchange hsame)
  | done g₀ p h =>
    cases hgoal.symm.trans h.goal
    exact .done g' p (h.exchange hsame)
  | taken g₀ p hover hplan hexecuted hledger =>
    cases hgoal.symm.trans hover.goal
    exact .taken g' p (hover.exchange hsame) hplan hexecuted hledger

theorem goal_eq_none (h : Stage l c s) (hs : s.isFrom .buildTransaction = false) :
    c.goal = none := by
  cases h with
  | init h => exact h.goal
  | configured h => exact h.goal
  | fetched h => exact h.goal
  | ready _ _ hgoal => exact hgoal
  | failed _ hgoal => exact hgoal
  | _ => exact absurd hs (by decide)

theorem exists_over (h : Stage l c s) (hs : s.isFrom .buildTransaction = true) :
    ∃ g, Over g c := by
  cases h with
  | opened g _ hover => exact ⟨g, hover⟩
  | resolved g _ _ hover => exact ⟨g, hover⟩
  | downloaded g _ h => exact ⟨g, h.toOver⟩
  | tested g _ h => exact ⟨g, h.toOver⟩
  | done g _ h => exact ⟨g, h.toOver⟩
  | taken g _ hover => exact ⟨g, hover⟩
  | _ => cases hs

theorem exists_pool (h : Stage l c s) (hs : s.isFrom .sackReady = true) :
    ∃ u, c.pool = some u := by
  cases hbuild : s.isFrom .buildTransaction with
  | true =>
    obtain ⟨g, hover⟩ := h.exists_over hbuild
    exact ⟨g.pool, hover.pool⟩
  | false =>
    cases h with
    | ready u hpool => exact ⟨u, hpool⟩
    | init => cases hs
    | configured => cases hs
    | fetched => cases hs
    | failed => cases hs
    | _ => exact absurd hbuild (by decide)

/-- What is downloaded and carried out has no problems. -/
theorem problems_eq_nil {p : Plan} (h : Stage l c s) (hs : s.isFrom .downloadPackages = true)
    (hplan : c.plan = some p) : p.problems = [] := by
  cases h with
  | downloaded g q h => cases hplan.symm.trans h.plan; exact h.outcome.problems_eq_nil
  | tested g q h => cases hplan.symm.trans h.plan; exact h.outcome.problems_eq_nil
  | done g q h => cases hplan.symm.trans h.plan; exact h.outcome.problems_eq_nil
  | taken g q _ hnone => cases hplan.symm.trans hnone
  | _ => cases hs

theorem parts_prefix (h : Stage l c s) : l.parts <+: ExecutorPart.all := by
  cases h with
  | init h => rw [h.ledger]; exact List.nil_prefix
  | configured h => rw [h.ledger]; exact List.nil_prefix
  | fetched h => rw [h.ledger]; exact List.nil_prefix
  | downloaded g p h => rw [h.ledger]; exact ⟨_, rfl⟩
  | tested g p h => rw [h.ledger]; exact ⟨_, rfl⟩
  | done g p h => rw [h.ledger]; exact ⟨_, rfl⟩
  | failed _ _ _ hparts => exact hparts
  | _ => subst_vars; exact ⟨_, rfl⟩

theorem unfinished (h : Stage l c s) (hs : s ≠ .transaction) :
    l.completed = false ∧ l.taken = [] := by
  cases h with
  | init h => rw [h.ledger]; exact ⟨rfl, rfl⟩
  | configured h => rw [h.ledger]; exact ⟨rfl, rfl⟩
  | fetched h => rw [h.ledger]; exact ⟨rfl, rfl⟩
  | downloaded g p h => rw [h.ledger]; exact ⟨rfl, rfl⟩
  | tested g p h => rw [h.ledger]; exact ⟨rfl, rfl⟩
  | done => exact absurd rfl hs
  | taken => exact absurd rfl hs
  | failed _ _ _ _ hcompleted htaken => exact ⟨hcompleted, htaken⟩
  | _ => subst_vars; exact ⟨rfl, rfl⟩

/-- Whenever an executor can be called, the plan is there and it is the outcome of the last
resolution. -/
theorem at_part (h : Stage l c c.state) {part : ExecutorPart}
    (hpart : c.canEnter part.state = true) :
    ∃ (g : Goal) (p : Plan), Over g c ∧ Goal.IsOutcome (.ok p) ∧ c.plan = some p ∧
      c.executed = false ∧ l = { resolution := some (.ok p), parts := part.before } := by
  cases part with
  | download =>
    rw [state_of_canEnter (s := .resolveTransaction) hpart rfl nofun] at h
    cases h with
    | resolved g r hr hover hplan hproblems hexecuted hledger =>
      have hgood : c.hasGoodPlan = true := by
        rcases canEnter_iff.mp hpart with ⟨-, hgood⟩ | ⟨-, hback, -⟩
        · exact hgood rfl
        · cases hback
      rw [hasGoodPlan, hplan] at hgood
      obtain ⟨p, rfl⟩ := (Plan.isSuccess_ofOutcome hr).mp hgood
      exact ⟨g, p, hover, hr, hplan, hexecuted, hledger⟩
  | test =>
    rw [state_of_canEnter (s := .downloadPackages) hpart rfl nofun] at h
    cases h with
    | downloaded g p h => exact ⟨g, p, h.toOver, h.outcome, h.plan, h.executed, h.ledger⟩
  | execute =>
    rw [state_of_canEnter (s := .testTransaction) hpart rfl nofun] at h
    cases h with
    | tested g p h => exact ⟨g, p, h.toOver, h.outcome, h.plan, h.executed, h.ledger⟩

variable {k : Call} {turn : Turn (Option Plan)}

theorem step_handedOver {part : ExecutorPart} {c' : Cycle} {records : List LogRecord}
    (h : Stage l c c.state) (hk : k.part? = some part) (hpart : c.canEnter part.state = true)
    (hc : c' = { c.enter part.state with executed := c.executed || part == .execute }) :
    Stage (l.note ⟨k, { cycle := c', result := .ok none, records, handed := c.custody? }⟩)
      c' part.state := by
  obtain ⟨g, p, hover, hp, hplan, hexecuted, rfl⟩ := h.at_part hpart
  have hgiven : c.custody? = some (g.pool, p) := by rw [custody?, hover.pool, hplan]
  rw [hgiven, Ledger.note_part _ hk]
  have hcarried : Carried part g p
      { resolution := some (.ok p), parts := part.before ++ [part], completed := part == .execute }
      c' := by
    subst hc
    exact ⟨⟨hover.pool, hover.goal⟩, hp, hplan, by rw [hexecuted]; rfl, rfl⟩
  cases part with
  | download => exact .downloaded g p hcarried
  | test => exact .tested g p hcarried
  | execute => exact .done g p hcarried

theorem step_broken {part : ExecutorPart} {e : ResolveError} {records : List LogRecord}
    {given : Universe × Plan} (h : Stage l c c.state)
    (hk : k.part? = some part) (hpart : c.canEnter part.state = true) :
    Stage (l.note ⟨k, { cycle := (c.enter part.state).failed, result := .error e, records
                        handed := some given }⟩)
      (c.enter part.state).failed .failed := by
  obtain ⟨g, p, -, -, -, -, rfl⟩ := h.at_part hpart
  rw [Ledger.note_part _ hk]
  refine .failed rfl rfl rfl ?_ ?_ rfl
  · cases part <;> exact ⟨_, rfl⟩
  · exact Bool.and_false _

theorem step (h : Stage l c c.state) (hstep : Step c k turn) :
    Stage (l.note ⟨k, turn⟩) turn.cycle turn.cycle.state := by
  cases hstep with
  | refused hk hs =>
    rw [l.note_refused (Call.startsOver_of_enters? hk)]
    exact h
  | closed hk hgoal =>
    rw [l.note_refused (Call.startsOver_of_usesGoal hk)]
    exact h
  | failed e records hk _ hs =>
    obtain ⟨resolution, hnote⟩ :=
      l.note_failed (c.enter _).failed e records (Call.startsOver_of_enters? hk)
    rw [hnote]
    have hunfinished := h.unfinished (ne_transaction_of_canEnter hs)
    exact .failed rfl rfl rfl h.parts_prefix hunfinished.1 hunfinished.2
  | broken e records given hk hs hgiven => exact h.step_broken hk hs
  | configured host config records hs =>
    rw [state_of_canEnter (s := .init) hs rfl nofun] at h
    cases h with
    | init h =>
      rw [l.note_quiet rfl rfl rfl rfl]
      exact .configured ⟨h.pool, h.goal, h.plan, h.executed, h.ledger⟩
  | fetched sources repos records hs =>
    rw [state_of_canEnter (s := .loadConfig) hs rfl nofun] at h
    cases h with
    | configured h =>
      rw [l.note_quiet rfl rfl rfl rfl]
      exact .fetched ⟨h.pool, h.goal, h.plan, h.executed, h.ledger⟩
  | loaded u records hs =>
    rw [state_of_canEnter (s := .downloadMetadata) hs rfl nofun] at h
    cases h with
    | fetched h =>
      rw [l.note_quiet rfl rfl rfl rfl]
      exact .ready u rfl h.goal h.plan h.executed h.ledger
  | opened u records hs hgoal hpool =>
    rw [l.note_quiet rfl rfl rfl rfl]
    rcases state_of_canEnter_build hs with hstate | hstate <;> rw [hstate] at h
    · cases h with
      | ready u' _ _ hplan hexecuted hledger =>
        exact .opened { pool := u } none ⟨hpool, rfl⟩ hplan hexecuted hledger
    · cases h with
      | resolved g r hr hover => cases hgoal.symm.trans hover.goal
  | reopened goal records hs hgoal =>
    rw [l.note_quiet rfl rfl rfl rfl]
    rcases state_of_canEnter_build hs with hstate | hstate <;> rw [hstate] at h
    · cases h with
      | ready u' _ hnone => cases hgoal.symm.trans hnone
    · cases h with
      | resolved g r hr hover _ _ hexecuted hledger =>
        cases hgoal.symm.trans hover.goal
        exact .opened goal.thaw (some r) ⟨hover.pool, rfl⟩ rfl hexecuted hledger
  | resolved demands goal plan records hs hgoal hplan =>
    rw [state_of_canEnter (s := .buildTransaction) hs rfl nofun] at h
    cases h with
    | opened g r hover _ hexecuted hledger =>
      cases hgoal.symm.trans hover.goal
      subst hledger
      have hr : Goal.IsOutcome (.ok plan) := ⟨goal, c.solver, demands, hplan⟩
      exact .resolved goal.freeze (.ok plan) hr ⟨hover.pool, rfl⟩ rfl hr.problems_eq_nil.symm
        hexecuted rfl
  | unsatisfiable demands goal problems records hs hgoal hproblems =>
    rw [state_of_canEnter (s := .buildTransaction) hs rfl nofun] at h
    cases h with
    | opened g r hover _ hexecuted hledger =>
      cases hgoal.symm.trans hover.goal
      subst hledger
      have hr : Goal.IsOutcome (.error problems) := ⟨goal, c.solver, demands, hproblems⟩
      exact .resolved goal.freeze (.error problems) hr ⟨hover.pool, rfl⟩ rfl rfl hexecuted rfl
  | handedOver records hk hs => exact h.step_handedOver hk hs rfl
  | added r demands goal records hgoal hfrozen =>
    rw [l.note_quiet rfl rfl rfl rfl]
    exact h.exchange hgoal rfl
  | frozen r demands goal hgoal hfrozen =>
    rw [l.note_quiet rfl rfl rfl rfl]
    exact h
  | cleared goal hgoal =>
    rw [l.note_quiet rfl rfl rfl rfl]
    exact h.exchange hgoal rfl
  | solved solver demands goal result records hgoal =>
    rw [l.note_quiet rfl rfl rfl rfl]
    exact h.exchange hgoal rfl
  | took hstate _ =>
    rw [hstate] at h
    cases h with
    | done g p h =>
      rw [h.plan, h.ledger]
      exact hstate ▸ .taken g p ⟨h.pool, h.goal⟩ rfl h.executed rfl
    | taken g p hover hplan hexecuted hledger =>
      rw [hplan, l.note_quiet rfl rfl rfl rfl]
      exact hstate ▸ .taken g p ⟨hover.pool, hover.goal⟩ rfl hexecuted hledger
  | nothingTaken hnone =>
    rw [l.note_quiet rfl rfl rfl rfl]
    exact h
  | startedOver records hk =>
    rw [l.note_startsOver hk]
    exact .init ⟨rfl, rfl, rfl, rfl, rfl⟩

end Stage

end Cycle

namespace Session

/-- What the cycle of a session holds is what its events led to. -/
def Staged (s : Session) : Prop := Cycle.Stage s.ledger s.cycle s.cycle.state

theorem Staged.call {s : Session} (h : s.Staged) (k : Cycle.Call) : (s.call k).Staged := by
  rw [Staged, ledger_call]
  exact Cycle.Stage.step h (Cycle.step_perform s.cycle)

theorem Staged.run {s : Session} (h : s.Staged) (ks : List Cycle.Call) : (s.run ks).Staged :=
  run_keeps h fun _ k _ h => h.call k

theorem staged_start (o : CycleOptions) (solver : Solver) : (start o solver).Staged :=
  .init ⟨rfl, rfl, rfl, rfl, rfl⟩

end Session

end Depsolve
