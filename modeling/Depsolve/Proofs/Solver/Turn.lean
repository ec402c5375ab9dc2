import Depsolve.Solver.Solve
/-!
# The turn of a job

What a job does to a run depends on nothing but the trial in which it has its turn:
it leads to another trial, and it may add a problem. So a run is a fold over trials,
and the problems that were found earlier play no part in it.
-/
namespace Depsolve

def Solution.problems (x : Solution) : List Problem :=
  match x.outcome with
  | .ok _ => []
  | .error problems => problems

theorem Solution.outcome_eq_error {x : Solution} {p : Problem} {rest : List Problem}
    (h : x.problems = p :: rest) : x.outcome = .error (p :: rest) := by
  rw [problems] at h
  split at h
  · cases h
  · rename_i heq
    rw [heq, h]

def Attempt.failure? (a : Attempt) : Option Failure :=
  match a.result with
  | .ok _ => none
  | .error e => some e

theorem Attempt.result_eq_error {a : Attempt} {e : Failure} (h : a.failure? = some e) :
    a.result = .error e := by
  rw [failure?] at h
  split at h
  · cases h
  · rename_i hresult
    cases h
    exact hresult

namespace Search

variable (s : Search)

def turn (call : Demands) (t : Trial) (job : Job) : Attempt :=
  s.carryOut (Rules.ofJob job call) job t s.solver.maxSteps

def after (call : Demands) (t : Trial) (job : Job) : Trial :=
  match (s.turn call t job).result with
  | .ok t' => t'
  | .error _ => t

def faults (call : Demands) (t : Trial) (job : Job) : List Problem :=
  match (s.turn call t job).result with
  | .ok _ => []
  | .error e =>
    if job.optional && e != .stepLimit then [] else [e.problem s.pool job s.solver.maxSteps]

/-- The problems that jobs add one after the other. -/
def faultsOf (call : Demands) : Trial → List Job → List Problem
  | _, [] => []
  | t, job :: rest => s.faults call t job ++ faultsOf call (s.after call t job) rest

variable {s} {call : Demands} {job : Job} {jobs : List Job} {t : Trial} {p : Progress} {e : Failure}

theorem runJob_eq : (s.runJob call p job).trial = s.after call p.trial job ∧
    (s.runJob call p job).problems = p.problems ++ s.faults call p.trial job := by
  rw [after, faults, turn]
  simp only [runJob]
  cases (s.carryOut (Rules.ofJob job call) job p.trial s.solver.maxSteps).result with
  | ok t => simp
  | error e =>
    by_cases hpassed : (job.optional && e != .stepLimit) = true
    · simp only [if_pos hpassed, List.append_nil, and_self]
    · simp only [if_neg hpassed, and_self]

theorem foldl_runJob_eq : (jobs.foldl (s.runJob call) p).trial =
      jobs.foldl (s.after call) p.trial ∧
    (jobs.foldl (s.runJob call) p).problems = p.problems ++ s.faultsOf call p.trial jobs := by
  induction jobs generalizing p with
  | nil => exact ⟨rfl, (List.append_nil _).symm⟩
  | cons job rest ih =>
    obtain ⟨htrial, hproblems⟩ := ih (p := s.runJob call p job)
    obtain ⟨hafter, hfaults⟩ : (s.runJob call p job).trial = s.after call p.trial job ∧
      (s.runJob call p job).problems = p.problems ++ s.faults call p.trial job := runJob_eq
    rw [hafter] at htrial hproblems
    rw [hfaults, List.append_assoc] at hproblems
    exact ⟨htrial, hproblems⟩

theorem faultsOf_append (before rest : List Job) :
    s.faultsOf call t (before ++ rest) =
      s.faultsOf call t before ++ s.faultsOf call (before.foldl (s.after call) t) rest := by
  induction before generalizing t with
  | nil => rfl
  | cons job before ih =>
    rw [List.cons_append, faultsOf, ih, faultsOf, List.append_assoc]
    rfl

/-- Each problem is that of one job, in the trial that the jobs before it have left. -/
theorem mem_faultsOf {x : Problem} (h : x ∈ s.faultsOf call t jobs) :
    ∃ before job later, jobs = before ++ job :: later ∧
      x ∈ s.faults call (before.foldl (s.after call) t) job := by
  induction jobs generalizing t with
  | nil => cases h
  | cons job rest ih =>
    rcases List.mem_append.mp h with hnow | hlater
    · exact ⟨[], job, rest, rfl, hnow⟩
    · obtain ⟨before, other, later, rfl, hother⟩ := ih hlater
      exact ⟨job :: before, other, later, rfl, hother⟩

theorem mem_faults {x : Problem} (h : x ∈ s.faults call t job) :
    ∃ e, (s.turn call t job).result = .error e ∧ x = e.problem s.pool job s.solver.maxSteps := by
  rw [faults] at h
  split at h
  · cases h
  · rename_i e hresult
    split at h
    · cases h
    · exact ⟨e, hresult, List.mem_singleton.mp h⟩

theorem after_of_error (h : (s.turn call t job).result = .error e) : s.after call t job = t := by
  rw [after, h]

theorem faults_of_error (h : (s.turn call t job).result = .error e) :
    s.faults call t job = if job.optional = true ∧ e ≠ .stepLimit then []
      else [e.problem s.pool job s.solver.maxSteps] := by
  rw [faults, h]
  cases job.optional <;> simp

/-- The jobs of a part of a list that are carried out. -/
def runnableFrom (start : Nat) (jobs : List Job) (skipped : IdSet) : List Job :=
  ((jobs.zipIdx start).filter fun p => p.1.kind != .guard && !skipped.contains p.2).map Prod.fst

theorem runnableFrom_append (start : Nat) (before rest : List Job) (skipped : IdSet) :
    runnableFrom start (before ++ rest) skipped =
      runnableFrom start before skipped ++
        runnableFrom (start + before.length) rest skipped := by
  simp only [runnableFrom, List.zipIdx_append, List.filter_append, List.map_append]

theorem runnableFrom_cons {start : Nat} {skipped : IdSet} (hkind : job.kind ≠ .guard)
    (hfree : start ∉ skipped) (rest : List Job) :
    runnableFrom start (job :: rest) skipped = job :: runnableFrom (start + 1) rest skipped := by
  have hpass : (job.kind != .guard && !skipped.contains start) = true := by
    simpa [hkind] using Bool.eq_false_iff.mpr hfree
  rw [runnableFrom, List.zipIdx_cons, List.filter_cons, if_pos hpass, List.map_cons, runnableFrom]

end Search

namespace Solver

variable (solver : Solver) (u : Universe) (jobs : List Job) (call : Demands)

def skipped : IdSet := ((solver.search u jobs).precheck jobs).skipped

/-- The trial when the first `n` jobs have had their turn. -/
def trialAt (n : Nat) : Trial :=
  (Search.runnable (jobs.take n) (solver.skipped u jobs)).foldl
    ((solver.search u jobs).after call) { present := (solver.search u jobs).initial }

/-- The problems when the first `n` jobs have had their turn, with those of the checks. -/
def problemsAt (n : Nat) : List Problem :=
  ((solver.search u jobs).precheck jobs).problems ++
    (solver.search u jobs).faultsOf call { present := (solver.search u jobs).initial }
      (Search.runnable (jobs.take n) (solver.skipped u jobs))

/-- A job passes the checks and is carried out. -/
structure HasTurn (n : Nat) (job : Job) : Prop where
  place : jobs[n]? = some job
  kind : job.kind ≠ .guard
  passes : n ∉ solver.skipped u jobs

variable {solver u jobs call} {n : Nat} {job : Job} {e : Failure}

theorem HasTurn.jobs_eq (h : solver.HasTurn u jobs n job) :
    jobs = jobs.take n ++ job :: jobs.drop (n + 1) ∧ (jobs.take n).length = n := by
  obtain ⟨hlt, hget⟩ := List.getElem?_eq_some_iff.mp h.place
  rw [← hget, ← List.drop_eq_getElem_cons hlt, List.take_append_drop, List.length_take]
  exact ⟨rfl, Nat.min_eq_left (Nat.le_of_lt hlt)⟩

theorem HasTurn.runnable_eq (h : solver.HasTurn u jobs n job) :
    Search.runnable jobs (solver.skipped u jobs) =
      Search.runnable (jobs.take n) (solver.skipped u jobs) ++ job ::
        Search.runnableFrom (n + 1) (jobs.drop (n + 1)) (solver.skipped u jobs) := by
  obtain ⟨hjobs, hlength⟩ := h.jobs_eq
  have hsplit := Search.runnableFrom_append 0 (jobs.take n) (job :: jobs.drop (n + 1))
    (solver.skipped u jobs)
  rw [← hjobs, Nat.zero_add, hlength, Search.runnableFrom_cons h.kind h.passes] at hsplit
  exact hsplit

/-- A solution is read off the trial and the problems at the end of the run. -/
theorem solve_outcome : (solver.solve u jobs call).outcome =
    if (solver.problemsAt u jobs call jobs.length).isEmpty
    then .ok ((solver.search u jobs).decisions (solver.trialAt u jobs call jobs.length))
    else .error (solver.problemsAt u jobs call jobs.length) := by
  simp only [solve, Search.foldl_runJob_eq, trialAt, problemsAt, skipped, List.take_length]

theorem solve_problems :
    (solver.solve u jobs call).problems = solver.problemsAt u jobs call jobs.length := by
  rw [Solution.problems, solve_outcome]
  split
  · rename_i heq
    split at heq
    · rename_i hempty
      exact (List.isEmpty_iff.mp hempty).symm
    · cases heq
  · rename_i heq
    split at heq
    · cases heq
    · exact (Except.error.inj heq).symm

theorem HasTurn.problemsAt_length (h : solver.HasTurn u jobs n job) :
    solver.problemsAt u jobs call jobs.length = solver.problemsAt u jobs call n ++
      ((solver.search u jobs).faults call (solver.trialAt u jobs call n) job ++
        (solver.search u jobs).faultsOf call
          ((solver.search u jobs).after call (solver.trialAt u jobs call n) job)
          (Search.runnableFrom (n + 1) (jobs.drop (n + 1)) (solver.skipped u jobs))) := by
  rw [problemsAt, List.take_length, h.runnable_eq, Search.faultsOf_append, Search.faultsOf,
    ← List.append_assoc]
  rfl

/-- Jobs matter to the search itself only as far as they protect packages. -/
theorem search_congr {jobs' : List Job}
    (h : solver.guardedPackages u jobs = solver.guardedPackages u jobs') :
    solver.search u jobs = solver.search u jobs' := by
  simp only [search, h]

def guardsOf (job : Job) : List PackageId :=
  match job.kind, job.target with
  | .guard, .packages set => set.toList
  | _, _ => []

theorem guardedPackages_eq (solver : Solver) (u : Universe) (jobs : List Job) :
    solver.guardedPackages u jobs =
      (u.installed.members.filter fun id => solver.protectedNames.contains (u.get id).name).union
        ((IdSet.ofList (jobs.flatMap guardsOf)).inter u.installed.members) := rfl

theorem mem_guardsOf {job : Job} {p : PackageId} :
    p ∈ guardsOf job ↔ job.kind = .guard ∧ ∃ set, job.target = .packages set ∧ p ∈ set := by
  constructor
  · intro h
    rw [guardsOf] at h
    split at h
    · rename_i set hkind htarget
      exact ⟨hkind, set, htarget, PackageSet.mem_toList.mp h⟩
    · cases h
  · rintro ⟨hkind, set, htarget, hset⟩
    rw [guardsOf, hkind, htarget]
    exact PackageSet.mem_toList.mpr hset

theorem guardsOf_eq_nil (h : job.kind ≠ .guard) : guardsOf job = [] := by
  rw [guardsOf]
  split
  · contradiction
  · rfl

end Solver

end Depsolve
