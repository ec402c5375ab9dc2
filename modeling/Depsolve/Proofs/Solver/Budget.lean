import Depsolve.Proofs.Solver.Looks
import Depsolve.Proofs.Universe.Sample
/-!
# The budget of a job

The budget bounds the looks of every job. A job that would need more has a problem that says so,
also where its other failures are passed over; and if no job has, then a larger budget makes no
difference.
-/
namespace Depsolve

namespace Search

variable (s : Search) (m : Nat)

def withBudget : Search := { s with solver := { s.solver with maxSteps := m } }

variable {s m} {r : Rules} {job : Job} {t : Trial} {left : Nat} {reason : Option Reason}

theorem withBudget_tryInPlace {complaint : Complaint} {snapshot : Option Trial}
    {reps : List Repair} {deeper : Option Failure} :
    (s.withBudget m).tryInPlace complaint snapshot reps deeper t =
      s.tryInPlace complaint snapshot reps deeper t := by
  have hrepair : (s.withBudget m).repairInPlace = s.repairInPlace := rfl
  induction reps generalizing snapshot deeper t with
  | nil => rfl
  | cons rep rest ih => simp only [tryInPlace, hrepair, ih]

theorem withBudget_unwindInPlace {e : Failure} {stack : List Fork} :
    (s.withBudget m).unwindInPlace e stack t = s.unwindInPlace e stack t := by
  induction stack generalizing e t with
  | nil => rfl
  | cons f stack ih => simp only [unwindInPlace, withBudget_tryInPlace, ih]

theorem withBudget_advanceInPlace {v : Violation} {stack : List Fork} :
    (s.withBudget m).advanceInPlace r t v stack = s.advanceInPlace r t v stack := by
  have hrepairs : (s.withBudget m).repairs = s.repairs := rfl
  have hcomplaint : (s.withBudget m).complaint = s.complaint := rfl
  simp only [advanceInPlace, hrepairs, hcomplaint, withBudget_tryInPlace,
    withBudget_unwindInPlace]

theorem withBudget_settleInPlace {stack : List Fork} :
    (s.withBudget m).settleInPlace r left t stack = s.settleInPlace r left t stack := by
  have hfirst : (s.withBudget m).firstViolation? = s.firstViolation? := rfl
  induction left generalizing t stack with
  | zero => rfl
  | succ left ih => simp only [settleInPlace, hfirst, withBudget_advanceInPlace, ih]

theorem withBudget_choose : (s.withBudget m).choose = s.choose := by
  have hadd : (s.withBudget m).add = s.add := rfl
  funext r reason t id left
  simp only [choose, settle, hadd, withBudget_settleInPlace]

theorem withBudget_chooseFirst : (s.withBudget m).chooseFirst = s.chooseFirst := by
  funext r reason t ids first left
  induction ids generalizing first left with
  | nil => rfl
  | cons id ids ih => simp only [chooseFirst, withBudget_choose, ih]

theorem withBudget_replaceOrKeep : (s.withBudget m).replaceOrKeep = s.replaceOrKeep := by
  have hget : (s.withBudget m).get = s.get := rfl
  funext r t old ids left
  simp only [replaceOrKeep, withBudget_chooseFirst, hget]

theorem withBudget_install : (s.withBudget m).install r job t left = s.install r job t left := by
  have hcandidates : (s.withBudget m).candidates = s.candidates := rfl
  have hnewest : (s.withBudget m).newestOnly = s.newestOnly := rfl
  have hpolicy : (s.withBudget m).policy = s.policy := rfl
  have hpool : (s.withBudget m).pool = s.pool := rfl
  simp only [install, hcandidates, hnewest, hpolicy, hpool, withBudget_chooseFirst]

theorem withBudget_cleanFrom {queue : List PackageId} {fuel : Nat} :
    (s.withBudget m).cleanFrom fuel t queue = s.cleanFrom fuel t queue := by
  have hunneeded : (s.withBudget m).isUnneeded = s.isUnneeded := rfl
  have hneeded : (s.withBudget m).neededBy = s.neededBy := rfl
  have hget : (s.withBudget m).get = s.get := rfl
  induction fuel generalizing t queue with
  | zero => rfl
  | succ fuel ih => simp only [cleanFrom, hunneeded, hneeded, hget, ih]

theorem withBudget_erase : (s.withBudget m).erase r job t left = s.erase r job t left := by
  have hcandidates : (s.withBudget m).candidates = s.candidates := rfl
  have hinitial : (s.withBudget m).initial = s.initial := rfl
  have hneeded : (s.withBudget m).neededBy = s.neededBy := rfl
  simp only [erase, settle, cleanDeps, hcandidates, hinitial, hneeded, withBudget_settleInPlace,
    withBudget_cleanFrom]

theorem withBudget_move {candidatesOf : Trial → PackageId → List PackageId} :
    (s.withBudget m).move r job t candidatesOf left = s.move r job t candidatesOf left := by
  have hmovable : (s.withBudget m).movable = s.movable := rfl
  simp only [move, hmovable, withBudget_replaceOrKeep]

theorem withBudget_downgrade :
    (s.withBudget m).downgrade r job t left = s.downgrade r job t left := by
  have hmovable : (s.withBudget m).movable = s.movable := rfl
  have hpool : (s.withBudget m).movePool = s.movePool := rfl
  have hcandidates : (s.withBudget m).downgradeCandidates = s.downgradeCandidates := rfl
  simp only [downgrade, hmovable, hpool, hcandidates, withBudget_chooseFirst]

theorem withBudget_carryOut :
    (s.withBudget m).carryOut r job t left = s.carryOut r job t left := by
  have hpool : (s.withBudget m).movePool = s.movePool := rfl
  have hupgrade : (s.withBudget m).upgradeCandidates = s.upgradeCandidates := rfl
  have hsync : (s.withBudget m).syncCandidates = s.syncCandidates := rfl
  have hreason : (s.withBudget m).changeReason = s.changeReason := rfl
  cases hkind : job.kind <;>
    simp only [carryOut, hkind, withBudget_install, withBudget_erase, withBudget_move,
      withBudget_downgrade, hpool, hupgrade, hsync, hreason]

theorem withBudget_checkAgainst {index : Nat} {jobs : List (Nat × Job)} {c : Precheck} :
    (s.withBudget m).checkAgainst index job jobs c = s.checkAgainst index job jobs c := by
  have hnames : (s.withBudget m).candidateNames = s.candidateNames := rfl
  have hcontradiction : (s.withBudget m).contradiction = s.contradiction := rfl
  induction jobs generalizing c with
  | nil => rfl
  | cons p rest ih => simp only [checkAgainst, hnames, hcontradiction, ih]

theorem withBudget_precheck (jobs : List Job) :
    (s.withBudget m).precheck jobs = s.precheck jobs := by
  have hmatch : (s.withBudget m).checkMatch = s.checkMatch := rfl
  have hguarded : (s.withBudget m).checkGuarded = s.checkGuarded := rfl
  simp only [precheck, checkContradictions, hmatch, hguarded, withBudget_checkAgainst]

theorem Failure.problem_eq {u : Universe} {e : Failure} (he : e ≠ .stepLimit) (m m' : Nat) :
    e.problem u job m = e.problem u job m' := by
  cases e
  case stepLimit => exact absurd rfl he
  case missing package d hadProviders => cases hadProviders <;> rfl
  all_goals rfl

variable {call : Demands} {p : Progress} {jobs : List Job}

/-- A job that does not run out of budget does the same with more. -/
theorem withBudget_runJob (hm : s.solver.maxSteps ≤ m)
    (h : (s.turn call p.trial job).failure? ≠ some .stepLimit) :
    (s.withBudget m).runJob call p job = s.runJob call p job := by
  obtain ⟨more, rfl⟩ := Nat.exists_eq_add_of_le hm
  let a := s.turn call p.trial job
  have hsteady : (s.withBudget (s.solver.maxSteps + more)).carryOut (Rules.ofJob job call) job
      p.trial (s.solver.maxSteps + more) = a.grant more := by
    rw [withBudget_carryOut]
    exact carryOut_metered.steady h more
  have hbudget : (s.withBudget (s.solver.maxSteps + more)).solver.maxSteps =
      s.solver.maxSteps + more := rfl
  have hpool : (s.withBudget (s.solver.maxSteps + more)).pool = s.pool := rfl
  have hcarryOut : s.carryOut (Rules.ofJob job call) job p.trial s.solver.maxSteps = a := rfl
  simp only [runJob, hbudget, hpool, hsteady, hcarryOut, Attempt.grant]
  rcases Attempt.ok_or_error h with ⟨t₁, hresult⟩ | ⟨e, hresult, he⟩
  · simp only [a, hresult, Nat.add_sub_add_right]
  · simp only [a, hresult, Failure.problem_eq he _ s.solver.maxSteps]

theorem faults_of_stepLimit (h : (s.turn call t job).failure? = some .stepLimit) :
    s.faults call t job = [Failure.stepLimit.problem s.pool job s.solver.maxSteps] := by
  rw [faults_of_error (Attempt.result_eq_error h), if_neg (by simp)]

theorem withBudget_foldl_runJob (hm : s.solver.maxSteps ≤ m)
    (h : ∀ x ∈ s.faultsOf call p.trial jobs, x.kind ≠ .stepLimit) :
    jobs.foldl ((s.withBudget m).runJob call) p = jobs.foldl (s.runJob call) p := by
  induction jobs generalizing p with
  | nil => rfl
  | cons job rest ih =>
    obtain ⟨hfirst, hrest⟩ := List.forall_mem_append.mp h
    have hwithin : (s.turn call p.trial job).failure? ≠ some .stepLimit := by
      intro hover
      rw [faults_of_stepLimit hover] at hfirst
      exact hfirst _ List.mem_cons_self rfl
    rw [List.foldl_cons, List.foldl_cons, withBudget_runJob hm hwithin]
    refine ih ?_
    rw [runJob_eq.1]
    exact hrest

/-- The clean-up removes no more packages than there are, so its bound is never reached. -/
theorem cleanFrom_add {fuel : Nat} {queue : List PackageId} (h : t.present.size < fuel)
    (more : Nat) : s.cleanFrom (fuel + more) t queue = s.cleanFrom fuel t queue := by
  induction fuel generalizing t queue with
  | zero => exact absurd h (Nat.not_lt_zero _)
  | succ fuel ih =>
    rw [Nat.add_right_comm, cleanFrom, cleanFrom]
    cases hqueue : queue.dropWhile fun id => !s.isUnneeded t id with
    | nil => rfl
    | cons id rest =>
      have hhead := List.head?_dropWhile_not (fun id => !s.isUnneeded t id) queue
      rw [hqueue] at hhead
      have hunneeded : s.isUnneeded t id = true := by simpa using hhead
      have hsize : (t.present.erase id).size < fuel := by
        have := IdSet.size_erase (isUnneeded_iff.mp hunneeded).1
        omega
      simp only [ih (t := { t with present := t.present.erase id }) hsize]

end Search

namespace Solver

variable {solver : Solver} {u : Universe} {jobs : List Job} {call : Demands} {n : Nat} {job : Job}

variable (solver u jobs call) in
def looksAt (n : Nat) (job : Job) : Nat :=
  ((solver.search u jobs).carryOutSights (Rules.ofJob job call) job
    (solver.trialAt u jobs call n) solver.maxSteps).countP Sight.isLook

theorem HasTurn.runs_out (h : solver.HasTurn u jobs n job)
    (hover : solver.maxSteps < solver.looksAt u jobs call n job) :
    ∃ later, (solver.solve u jobs call).outcome = .error (solver.problemsAt u jobs call n ++
      Failure.stepLimit.problem u job solver.maxSteps :: later) := by
  have hfails : ((solver.search u jobs).turn call (solver.trialAt u jobs call n) job).failure? =
      some .stepLimit := Search.carryOut_metered.lt_iff.mp hover
  have hproblems : solver.problemsAt u jobs call jobs.length = _ := h.problemsAt_length
  rw [Search.faults_of_stepLimit hfails, List.singleton_append] at hproblems
  rw [solve_outcome, hproblems, if_neg (by simp)]
  exact ⟨_, rfl⟩

theorem solve_withBudget {m : Nat} (hm : solver.maxSteps ≤ m)
    (h : ∀ p ∈ (solver.solve u jobs call).problems, p.kind ≠ .stepLimit) :
    ({ solver with maxSteps := m } : Solver).solve u jobs call = solver.solve u jobs call := by
  have hsearch : ({ solver with maxSteps := m } : Solver).search u jobs =
      (solver.search u jobs).withBudget m := rfl
  have hinitial : ((solver.search u jobs).withBudget m).initial =
      (solver.search u jobs).initial := rfl
  have hdecisions : ((solver.search u jobs).withBudget m).decisions =
      (solver.search u jobs).decisions := rfl
  rw [solve_problems, problemsAt, List.take_length, skipped] at h
  obtain ⟨-, hfaults⟩ := List.forall_mem_append.mp h
  simp only [solve, hsearch, hinitial, hdecisions, Search.withBudget_precheck]
  rw [Search.withBudget_foldl_runJob hm hfaults]

/-- The budget of a job bounds its looks, and every other loop ends by itself. A job that needs
more has the problem that the budget ran out, also where it may fail and where it passes over
packages that cannot be replaced. A budget that was large enough might be larger. -/
theorem solve_within_budget (solver : Solver) (u : Universe) (jobs : List Job) (call : Demands) :
    (∀ n job, solver.HasTurn u jobs n job →
      solver.looksAt u jobs call n job ≤ solver.maxSteps + 1 ∧
      (solver.maxSteps < solver.looksAt u jobs call n job → ∃ later,
        (solver.solve u jobs call).outcome = .error (solver.problemsAt u jobs call n ++
          Failure.stepLimit.problem u job solver.maxSteps :: later))) ∧
    (∀ t queue more, (solver.search u jobs).cleanFrom (t.present.size + 1 + more) t queue =
      (solver.search u jobs).cleanFrom (t.present.size + 1) t queue) ∧
    (∀ m, solver.maxSteps ≤ m →
      (∀ p ∈ (solver.solve u jobs call).problems, p.kind ≠ .stepLimit) →
      ({ solver with maxSteps := m } : Solver).solve u jobs call = solver.solve u jobs call) :=
  ⟨fun _ _ h => ⟨Search.carryOut_metered.le, h.runs_out⟩,
    fun _ _ more => Search.cleanFrom_add (Nat.lt_succ_self _) more,
    fun _ hm h => solve_withBudget hm h⟩

/-- The newer build of the application needs two packages, each of which obsoletes the other. -/
def tugOfWar : Universe :=
  .sample
    [.noarch "app" "1"]
    [.noarch "app" "2" [("requires", "rope, flag")],
      .noarch "red" "1" [("provides", "rope"), ("obsoletes", "blue")],
      .noarch "blue" "1" [("provides", "flag"), ("obsoletes", "red")],
      .noarch "boat" "1" [("requires", "rope")]]
    (by decide +kernel)

def upgradeIfPossible : Job :=
  { kind := .upgradeAll, spec := "*", target := .all, optional := true }

def wantBoat : Job := { kind := .install, spec := "boat", target := .dependency ⟨"boat", none⟩ }

/-- The two take turns until the budget is gone. The job might fail and might keep the older
build, but this shows. A job that needs two looks has the same result with two and with more. -/
theorem tugOfWar_over_budget :
    ((Solver.mk [] [] 5 none).HasTurn tugOfWar [upgradeIfPossible] 0 upgradeIfPossible ∧
      (Solver.mk [] [] 5 none).looksAt tugOfWar [upgradeIfPossible] {} 0
        upgradeIfPossible = 6 ∧
      ∃ later, ((Solver.mk [] [] 5 none).solve tugOfWar [upgradeIfPossible] {}).outcome =
        .error ((Solver.mk [] [] 5 none).problemsAt tugOfWar [upgradeIfPossible] {} 0 ++
          Failure.stepLimit.problem tugOfWar upgradeIfPossible 5 :: later)) ∧
    ((Solver.mk [] [] 2 none).looksAt tugOfWar [wantBoat] {} 0 wantBoat = 2 ∧
      (∀ p ∈ ((Solver.mk [] [] 2 none).solve tugOfWar [wantBoat] {}).problems,
        p.kind ≠ .stepLimit) ∧
      (Solver.mk [] [] 100 none).solve tugOfWar [wantBoat] {} =
        (Solver.mk [] [] 2 none).solve tugOfWar [wantBoat] {}) := by
  have hturn : (Solver.mk [] [] 5 none).HasTurn tugOfWar [upgradeIfPossible] 0
      upgradeIfPossible := ⟨rfl, by decide, by decide +kernel⟩
  have hlooks : (Solver.mk [] [] 5 none).looksAt tugOfWar [upgradeIfPossible] {} 0
      upgradeIfPossible = 6 := by decide +kernel
  have hover := ((solve_within_budget _ _ _ _).1 0 upgradeIfPossible hturn).2
    (by rw [hlooks]; decide)
  have hwithin : ∀ p ∈ ((Solver.mk [] [] 2 none).solve tugOfWar [wantBoat] {}).problems,
      p.kind ≠ .stepLimit := by decide +kernel
  have hsame := (solve_within_budget (Solver.mk [] [] 2 none) tugOfWar [wantBoat] {}).2.2 100
    (by decide) hwithin
  exact ⟨⟨hturn, hlooks, hover⟩, by decide +kernel, hwithin, hsame⟩

end Solver

end Depsolve
