import Depsolve.Proofs.Solver.Mirror.Precheck
import Depsolve.Proofs.Solver.Turn
/-!
# The same solution over a larger universe

When a universe is embedded in another one, a solver comes to the same solution
over both for jobs that mirror each other: to the renamed decisions, or to the
same problems in the same words about the renamed packages.
-/
namespace Depsolve

def renameOutcome (f : Renaming) :
    Except (List Problem) Decisions → Except (List Problem) Decisions
  | .ok d => .ok (d.rename f)
  | .error problems => .error (problems.map (Problem.rename f))

theorem Failure.rename_ne_stepLimit {f : Renaming} (e : Failure) :
    (e.rename f != .stepLimit) = (e != .stepLimit) := by
  cases e <;> rfl

theorem Job.Mirrors.obstacle_message {f : Renaming} {job job' : Job} (h : job.Mirrors f job')
    (obstacle : Obstacle) : obstacle.message job' = obstacle.message job := by
  rw [h.others]
  rfl

namespace Search.Mirrors

variable {s s' : Search} {f : Renaming} (h : s.Mirrors s' f) {job job' : Job}

include h

theorem problem (hjob : job.Mirrors f job') (maxSteps : Nat) (e : Failure) :
    (e.rename f).problem s'.pool job' maxSteps = (e.problem s.pool job maxSteps).rename f := by
  cases e with
  | missing package d hadProviders =>
    cases hadProviders <;>
      simp only [Failure.rename, Failure.problem, Problem.rename, hjob.kind_eq, hjob.spec_eq,
        h.pool.nevra, List.map_cons, List.map_nil]
  | notApplicable obstacle =>
    simp only [Failure.rename, Failure.problem, hjob.obstacle_message, Problem.rename,
      List.map_nil]
  | _ =>
    simp only [Failure.rename, Failure.problem, Problem.rename, hjob.kind_eq, hjob.spec_eq,
      h.pool.nevra, List.map_cons, List.map_nil]

theorem turn (hjob : job.Mirrors f job') (call : Demands) (t : Trial) :
    (s.turn call t job).Mirrors f (s'.turn call (t.rename f) job') := by
  have hrules : Rules.ofJob job' call = Rules.ofJob job call := by
    simp only [Rules.ofJob, hjob.demands_eq, hjob.kind_eq]
  rw [Search.turn, Search.turn, hrules, h.solver]
  exact h.carryOut _ hjob t _

theorem after (hjob : job.Mirrors f job') (call : Demands) (t : Trial) :
    s'.after call (t.rename f) job' = (s.after call t job).rename f := by
  rw [Search.after, Search.after, (h.turn hjob call t).result]
  cases (s.turn call t job).result <;> rfl

theorem faults (hjob : job.Mirrors f job') (call : Demands) (t : Trial) :
    s'.faults call (t.rename f) job' = (s.faults call t job).map (Problem.rename f) := by
  rw [Search.faults, Search.faults, (h.turn hjob call t).result]
  cases (s.turn call t job).result with
  | ok t => rfl
  | error e =>
    simp only [renameResult_error, Failure.rename_ne_stepLimit, hjob.optional_eq, h.solver,
      h.problem hjob]
    split <;> rfl

theorem foldl_after {jobs jobs' : List Job} (hjobs : List.Forall₂ (Job.Mirrors f) jobs jobs')
    (call : Demands) (t : Trial) :
    jobs'.foldl (s'.after call) (t.rename f) = (jobs.foldl (s.after call) t).rename f := by
  induction hjobs generalizing t with
  | nil => rfl
  | cons hjob hrest ih => rw [List.foldl_cons, h.after hjob, ih, List.foldl_cons]

theorem faultsOf {jobs jobs' : List Job} (hjobs : List.Forall₂ (Job.Mirrors f) jobs jobs')
    (call : Demands) (t : Trial) :
    s'.faultsOf call (t.rename f) jobs' = (s.faultsOf call t jobs).map (Problem.rename f) := by
  induction hjobs generalizing t with
  | nil => rfl
  | cons hjob hrest ih =>
    rw [Search.faultsOf, Search.faultsOf, h.faults hjob, h.after hjob, ih, List.map_append]

omit h in
theorem runnable {jobs jobs' : List Job} (hjobs : List.Forall₂ (Job.Mirrors f) jobs jobs')
    (skipped : IdSet) :
    List.Forall₂ (Job.Mirrors f) (Search.runnable jobs skipped)
      (Search.runnable jobs' skipped) := by
  refine List.rel_map (fun p p' hp => hp.1) (List.rel_filter (fun p p' hp => ?_) (numbered hjobs 0))
  have hpass : (p'.1.kind != .guard && !skipped.contains p'.2) =
      (p.1.kind != .guard && !skipped.contains p.2) := by
    rw [hp.1.kind_eq, hp.2]
  exact iff_of_eq (congrArg (· = true) hpass.symm)

/-! ### Decisions -/

theorem newReason (t : Trial) (i : PackageId) :
    s'.newReason (t.rename f) (f i) = s.newReason t i := by
  have hreason : ∀ j, (s'.get (f j)).reason = (s.get j).reason := by
    intro j
    exact h.pool.apply_get (fun _ => rfl) j
  have hfind : s'.initial.toList.find? (fun old => s'.sameFamily old (f i)) =
      (s.initial.toList.find? fun old => s.sameFamily old i).map f := by
    rw [h.initial, IdSet.toList_rename, List.find?_map]
    simp only [Function.comp_def, h.sameFamily]
  rw [Search.newReason, Search.newReason, Trial.rename_reasons, Reasons.get?_rename, hfind]
  cases t.reasons.get? i with
  | some reason => rfl
  | none =>
    cases s.initial.toList.find? fun old => s.sameFamily old i with
    | none => rfl
    | some old => simp only [Option.map_some, Reasons.get?_rename, hreason]

omit h in
theorem sorted_pairs (pairs : List (PackageId × PackageId)) :
    (sortCmp comparePairs (pairs.map (Prod.map f f))).eraseReps =
      ((sortCmp comparePairs pairs).eraseReps).map (Prod.map f f) := by
  rw [sortCmp_map (comparePairs_rename f), eraseReps_map (f.injective.prodMap f.injective)]

theorem order (new : IdSet) :
    ((new.rename f).toList.flatMap fun dependent =>
      (s'.links.requiresOf dependent).flatMap fun need =>
        ((need.2.inter (new.rename f)).erase dependent).toList.map fun dependency =>
          (dependency, dependent)) =
    (new.toList.flatMap fun dependent =>
      (s.links.requiresOf dependent).flatMap fun need =>
        ((need.2.inter new).erase dependent).toList.map fun dependency =>
          (dependency, dependent)).map (Prod.map f f) := by
  simp only [IdSet.toList_rename, List.flatMap_map, List.map_flatMap, requiresOf_eq, h.requires,
    h.inter_providers, IdSet.rename_erase, List.map_map, Function.comp_def,
    Prod.map_apply]

theorem decisions (t : Trial) : s'.decisions (t.rename f) = (s.decisions t).rename f := by
  have hnew : (t.rename f).present.diff s'.initial = (t.present.diff s.initial).rename f := by
    rw [h.initial, Trial.rename_present, IdSet.rename_diff]
  have hgone : s'.initial.diff (t.rename f).present = (s.initial.diff t.present).rename f := by
    rw [h.initial, Trial.rename_present, IdSet.rename_diff]
  have hkept : (t.rename f).present.inter s'.initial = (t.present.inter s.initial).rename f := by
    rw [h.initial, Trial.rename_present, IdSet.rename_inter]
  have hobsoletes : ((t.rename f).obsoleted.filter fun p =>
        ((t.present.diff s.initial).rename f).contains p.1 &&
          ((s.initial.diff t.present).rename f).contains p.2) =
      (t.obsoleted.filter fun p =>
        (t.present.diff s.initial).contains p.1 &&
          (s.initial.diff t.present).contains p.2).map (Prod.map f f) := by
    simp only [Trial.rename_obsoleted, List.filter_map, Function.comp_def, Prod.map_fst,
      Prod.map_snd, IdSet.contains_rename]
  have hreasons : ∀ new kept : IdSet,
      ((new.rename f).toList.map fun id => (id, s'.newReason (t.rename f) id)) ++
        ((kept.rename f).toList.filterMap fun id =>
          ((t.rename f).reasons.get? id).map fun reason => (id, reason)) =
      ((new.toList.map fun id => (id, s.newReason t id)) ++
        (kept.toList.filterMap fun id =>
          (t.reasons.get? id).map fun reason => (id, reason))).map fun e => (f e.1, e.2) := by
    intro new kept
    simp only [IdSet.toList_rename, List.map_append, List.map_map, Function.comp_def, h.newReason,
      List.filterMap_map, Trial.rename_reasons, Reasons.get?_rename, List.map_filterMap,
      Option.map_map]
  simp only [Search.decisions, hnew, hgone, hkept, h.order, hobsoletes, sorted_pairs, hreasons,
    Reasons.rename_ofList]
  simp only [IdSet.toList_rename, Decisions.rename]

end Search.Mirrors

namespace Solver

variable (solver : Solver) {v u : Universe} {f : Renaming} {jobs jobs' : List Job}

theorem guardsOf_mirrors {job job' : Job} (hjob : job.Mirrors f job') :
    guardsOf job' = (guardsOf job).map f := by
  rw [guardsOf, guardsOf, hjob.kind_eq]
  have htarget := hjob.target
  generalize job.target = target, job'.target = target' at htarget ⊢
  cases htarget with
  | packages hset =>
    cases job.kind <;>
      simp only [PackageSet.toList_eq_members, hset, IdSet.toList_rename, List.map_nil]
  | dependency d => cases job.kind <;> rfl
  | all => cases job.kind <;> rfl

theorem flatMap_guardsOf (hjobs : List.Forall₂ (Job.Mirrors f) jobs jobs') :
    jobs'.flatMap guardsOf = (jobs.flatMap guardsOf).map f := by
  induction hjobs with
  | nil => rfl
  | cons hjob hrest ih =>
    rw [List.flatMap_cons, List.flatMap_cons, guardsOf_mirrors hjob, ih, List.map_append]

theorem guardedPackages_rename (hpool : v.Embeds u f)
    (hjobs : List.Forall₂ (Job.Mirrors f) jobs jobs') :
    solver.guardedPackages u jobs' = (solver.guardedPackages v jobs).rename f := by
  have hbyName : (u.installed.members.filter fun id =>
        solver.protectedNames.contains (u.get id).name) =
      (v.installed.members.filter fun id =>
        solver.protectedNames.contains (v.get id).name).rename f := by
    rw [hpool.installed_members]
    apply IdSet.rename_filter
    intro i
    rw [hpool.name]
  rw [guardedPackages_eq, guardedPackages_eq, hbyName, flatMap_guardsOf hjobs,
    IdSet.rename_ofList, hpool.installed_members, IdSet.rename_inter, IdSet.rename_union]

theorem search_mirrors (hpool : v.Embeds u f)
    (hjobs : List.Forall₂ (Job.Mirrors f) jobs jobs') :
    (solver.search v jobs).Mirrors (solver.search u jobs') f where
  pool := hpool
  solver := rfl
  policy := by rw [search, search, hpool.nativeArch]
  guarded := solver.guardedPackages_rename hpool hjobs

/-- Over a universe with further packages that are not considered, mirrored jobs have the
renamed outcome. -/
theorem outcome_mirrors (hpool : v.Embeds u f)
    (hjobs : List.Forall₂ (Job.Mirrors f) jobs jobs') (call : Demands) :
    (solver.solve u jobs' call).outcome =
      renameOutcome f (solver.solve v jobs call).outcome := by
  have hsearch := solver.search_mirrors hpool hjobs
  have hcheck := hsearch.precheck hjobs
  have hrun := Search.Mirrors.runnable hjobs ((solver.search v jobs).precheck jobs).skipped
  have hstart : ({ present := (solver.search u jobs').initial } : Trial) =
      Trial.rename f { present := (solver.search v jobs).initial } := by
    rw [hsearch.initial]
    rfl
  have htrial : solver.trialAt u jobs' call jobs'.length =
      (solver.trialAt v jobs call jobs.length).rename f := by
    rw [trialAt, trialAt, skipped, skipped, List.take_length, List.take_length, hcheck.skipped,
      hstart]
    exact hsearch.foldl_after hrun call _
  have hproblems : solver.problemsAt u jobs' call jobs'.length =
      (solver.problemsAt v jobs call jobs.length).map (Problem.rename f) := by
    rw [problemsAt, problemsAt, skipped, skipped, List.take_length, List.take_length,
      hcheck.skipped, hcheck.problems, hstart, hsearch.faultsOf hrun, List.map_append]
  rw [solve_outcome, solve_outcome, htrial, hproblems, List.isEmpty_map]
  split
  · exact congrArg Except.ok (hsearch.decisions _)
  · rfl

end Solver

end Depsolve
