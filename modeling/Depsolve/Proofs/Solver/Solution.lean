import Depsolve.Proofs.Solver.Run
/-!
# Where solutions come from

The decisions of a solution are read off a trial that the runnable jobs reach
from the installed system, and carrying them out gives the packages of that trial.
-/
namespace Depsolve

open Relation

/-- The packages on the system after decisions were carried out. -/
def Decisions.system (u : Universe) (d : Decisions) : IdSet :=
  (u.installed.members.diff (.ofList d.erase)).union (.ofList d.install)

theorem Decisions.mem_system {u : Universe} {d : Decisions} {id : PackageId} :
    id ∈ d.system u ↔ id ∈ u.installed ∧ id ∉ d.erase ∨ id ∈ d.install := by
  simp [system, PackageSet.mem_def]

namespace Search

variable {s : Search} {job : Job} {t : Trial}

/-- Decisions lead to the very packages of the trial that they were read off. -/
theorem decisions_system (s : Search) (t : Trial) : (s.decisions t).system s.pool = t.present := by
  ext id
  rw [Decisions.mem_system]
  simp only [decisions, IdSet.mem_toList, IdSet.mem_diff, mem_initial, not_and, Decidable.not_not]
  by_cases hin : id ∈ s.pool.installed <;> simp [hin]

variable (s) in
def JobMove (call : Demands) (jobs : List Job) (t t' : Trial) : Prop :=
  ∃ job ∈ jobs, s.Move (Rules.ofJob job call) job t t'

theorem jobMove_mono {call : Demands} {jobs jobs' : List Job} (hsubset : jobs ⊆ jobs') :
    s.JobMove call jobs ≤ s.JobMove call jobs' :=
  fun _ _ ⟨job, hjob, hmove⟩ => ⟨job, hsubset hjob, hmove⟩

theorem runJob_trial (call : Demands) (p : Progress) (job : Job) :
    ReflTransGen (s.Move (Rules.ofJob job call) job) p.trial (s.runJob call p job).trial := by
  simp only [runJob]
  split
  · rename_i t hok
    exact carryOut_eq_ok hok
  · split
    · exact .refl
    · exact .refl

theorem foldl_runJob_trial (call : Demands) (jobs : List Job) (p : Progress) :
    ReflTransGen (s.JobMove call jobs) p.trial (jobs.foldl (s.runJob call) p).trial := by
  induction jobs generalizing p with
  | nil => exact .refl
  | cons job jobs ih =>
    have hjob : s.Move (Rules.ofJob job call) job ≤ s.JobMove call (job :: jobs) :=
      fun _ _ hmove => ⟨job, List.mem_cons_self, hmove⟩
    have hjobs : s.JobMove call jobs ≤ s.JobMove call (job :: jobs) :=
      jobMove_mono (List.subset_cons_self job jobs)
    have hfirst := ReflTransGen.mono hjob _ _ (runJob_trial call p job)
    exact hfirst.trans (ReflTransGen.mono hjobs _ _ (ih (s.runJob call p job)))

theorem problems_eq_nil_of_foldl_runJob {call : Demands} {jobs : List Job} {p : Progress}
    (h : (jobs.foldl (s.runJob call) p).problems = []) : p.problems = [] := by
  induction jobs generalizing p with
  | nil => exact h
  | cons job jobs ih =>
    have hnext : (s.runJob call p job).problems = [] := ih h
    simp only [runJob] at hnext
    split at hnext
    · exact hnext
    · split at hnext
      · exact hnext
      · exact absurd hnext (by simp)

theorem foldl_runJob_split {call : Demands} {jobs : List Job} {p : Progress} (hjob : job ∈ jobs)
    (hmandatory : job.optional = false) (h : (jobs.foldl (s.runJob call) p).problems = []) :
    ∃ t t' left, ReflTransGen (s.JobMove call jobs) p.trial t ∧
      (s.carryOut (Rules.ofJob job call) job t left).result = .ok t' ∧
      ReflTransGen (s.JobMove call jobs) t' (jobs.foldl (s.runJob call) p).trial := by
  obtain ⟨before, after, rfl⟩ := List.append_of_mem hjob
  let p₁ := before.foldl (s.runJob call) p
  have hsplit : (before ++ job :: after).foldl (s.runJob call) p =
      after.foldl (s.runJob call) (s.runJob call p₁ job) := by
    rw [List.foldl_append, List.foldl_cons]
  rw [hsplit] at h ⊢
  have hproblems := problems_eq_nil_of_foldl_runJob h
  have hbefore : s.JobMove call before ≤ s.JobMove call (before ++ job :: after) :=
    jobMove_mono (List.subset_append_left before (job :: after))
  have hafter : s.JobMove call after ≤ s.JobMove call (before ++ job :: after) :=
    jobMove_mono (List.subset_append_of_subset_right before (List.subset_cons_self job after))
  have hstart := ReflTransGen.mono hbefore _ _ (foldl_runJob_trial (s := s) call before p)
  have hend := ReflTransGen.mono hafter _ _ (foldl_runJob_trial call after (s.runJob call p₁ job))
  cases hresult :
      (s.carryOut (Rules.ofJob job call) job p₁.trial s.solver.maxSteps).result with
  | ok t' =>
    have htrial : (s.runJob call p₁ job).trial = t' := by simp only [runJob, hresult]
    exact ⟨p₁.trial, t', s.solver.maxSteps, hstart, hresult, htrial ▸ hend⟩
  | error e => exact absurd hproblems (by simp [runJob, hresult, hmandatory])

theorem checkGuarded_of_problems_eq_nil {c : Precheck} {index : Nat}
    (h : (s.checkGuarded c index job).problems = []) :
    s.checkGuarded c index job = c ∧ (job.kind = .erase → index ∉ c.skipped →
      ∀ id ∈ s.candidates job, id ∉ s.guarded) := by
  simp only [checkGuarded] at h ⊢
  split
  · rename_i hpass
    refine ⟨rfl, fun hkind hskipped id hid hguarded => ?_⟩
    simp only [hkind, Bool.or_eq_true, bne_self_eq_false, Bool.false_eq_true, false_or,
      List.isEmpty_iff, IdSet.contains_iff_mem] at hpass
    have hhit := hpass.resolve_left hskipped
    exact List.filter_eq_nil_iff.mp hhit id hid hguarded
  · rename_i hhit
    rw [if_neg hhit] at h
    exact absurd h (by simp [Precheck.refuse])

theorem foldl_checkGuarded {numbered : List (Nat × Job)} {c : Precheck}
    (h : (numbered.foldl (fun c p => s.checkGuarded c p.1 p.2) c).problems = []) :
    numbered.foldl (fun c p => s.checkGuarded c p.1 p.2) c = c ∧
      ∀ p ∈ numbered, p.2.kind = .erase → p.1 ∉ c.skipped →
        ∀ id ∈ s.candidates p.2, id ∉ s.guarded := by
  induction numbered generalizing c with
  | nil => exact ⟨rfl, by simp⟩
  | cons p rest ih =>
    obtain ⟨heq, hrest⟩ := ih h
    rw [List.foldl_cons, heq] at h
    obtain ⟨hsame, hp⟩ := checkGuarded_of_problems_eq_nil h
    dsimp only at heq hrest
    rw [hsame] at heq hrest
    exact ⟨by rw [List.foldl_cons, hsame, heq], List.forall_mem_cons.mpr ⟨hp, hrest⟩⟩

theorem mem_skipped_foldl_checkGuarded (numbered : List (Nat × Job)) {c : Precheck} {i : Nat}
    (hi : i ∈ c.skipped) :
    i ∈ (numbered.foldl (fun c p => s.checkGuarded c p.1 p.2) c).skipped := by
  induction numbered generalizing c with
  | nil => exact hi
  | cons p rest ih =>
    have hnow : i ∈ (s.checkGuarded c p.1 p.2).skipped := by
      simp only [checkGuarded]
      split
      · exact hi
      · exact IdSet.mem_insert.mpr (.inl hi)
    exact ih hnow

theorem unguarded_of_foldl_checkGuarded {numbered : List (Nat × Job)} {c : Precheck} :
    ∀ p ∈ numbered, p.2.kind = .erase →
      p.1 ∉ (numbered.foldl (fun c p => s.checkGuarded c p.1 p.2) c).skipped →
      ∀ id ∈ s.candidates p.2, id ∉ s.guarded := by
  induction numbered generalizing c with
  | nil => simp
  | cons p rest ih =>
    refine List.forall_mem_cons.mpr ⟨fun hkind hfree id hid hguarded => hfree ?_, ih⟩
    have hnow : p.1 ∈ (s.checkGuarded c p.1 p.2).skipped := by
      simp only [checkGuarded]
      split
      · rename_i hpass
        have hhit : ((s.candidates p.2).filter s.guarded.contains) ≠ [] :=
          List.ne_nil_of_mem (List.mem_filter.mpr ⟨hid, hguarded⟩)
        simpa [hkind, hhit, IdSet.contains_iff_mem] using hpass
      · exact IdSet.mem_insert.mpr (.inr rfl)
    exact mem_skipped_foldl_checkGuarded rest hnow

theorem mem_runnable {jobs : List Job} {skipped : IdSet} :
    job ∈ runnable jobs skipped ↔
      ∃ index, (job, index) ∈ jobs.zipIdx ∧ job.kind ≠ .guard ∧ index ∉ skipped := by
  simp only [runnable, List.mem_map, List.mem_filter, Bool.and_eq_true, bne_iff_ne,
    Bool.not_eq_true', Prod.exists]
  constructor
  · rintro ⟨job, index, ⟨hmem, hkind, hskipped⟩, rfl⟩
    exact ⟨index, hmem, hkind, Bool.eq_false_iff.mp hskipped⟩
  · rintro ⟨index, hmem, hkind, hskipped⟩
    exact ⟨job, index, ⟨hmem, hkind, Bool.eq_false_iff.mpr hskipped⟩, rfl⟩

theorem mem_of_mem_runnable {jobs : List Job} {skipped : IdSet}
    (h : job ∈ runnable jobs skipped) : job ∈ jobs := by
  obtain ⟨index, hmem, -, -⟩ := mem_runnable.mp h
  exact List.fst_mem_of_mem_zipIdx hmem

theorem notMem_guarded_of_runnable {jobs : List Job} (h : (s.precheck jobs).problems = [])
    (hjob : job ∈ runnable jobs (s.precheck jobs).skipped) (hkind : job.kind = .erase)
    {id : PackageId} (hid : id ∈ s.candidates job) : id ∉ s.guarded := by
  obtain ⟨index, hmem, -, hskipped⟩ := mem_runnable.mp hjob
  obtain ⟨heq, hall⟩ := foldl_checkGuarded h
  have hsame : s.precheck jobs = _ := heq
  rw [hsame] at hskipped
  exact hall (index, job) (List.mem_map.mpr ⟨(job, index), hmem, rfl⟩) hkind hskipped id hid

end Search

namespace Solver

variable {solver : Solver} {u : Universe} {jobs : List Job} {call : Demands} {d : Decisions}

/-- A solution is read off a trial that the runnable jobs reach, and nothing was refused. -/
theorem solve_eq_ok (h : (solver.solve u jobs call).outcome = .ok d) :
    ((solver.search u jobs).precheck jobs).problems = [] ∧
    ∃ t, ReflTransGen ((solver.search u jobs).JobMove call
        (Search.runnable jobs ((solver.search u jobs).precheck jobs).skipped))
      { present := (solver.search u jobs).initial } t ∧ d = (solver.search u jobs).decisions t := by
  simp only [solve] at h
  split at h
  · rename_i hproblems
    have hnil := List.isEmpty_iff.mp hproblems
    cases h
    refine ⟨Search.problems_eq_nil_of_foldl_runJob hnil, _, ?_, rfl⟩
    exact Search.foldl_runJob_trial call _ ⟨_, _, _⟩
  · cases h

theorem solve_carries_out (h : (solver.solve u jobs call).outcome = .ok d) {job : Job}
    (hjob : job ∈ Search.runnable jobs ((solver.search u jobs).precheck jobs).skipped)
    (hmandatory : job.optional = false) :
    ∃ t t' t'' left, ReflTransGen ((solver.search u jobs).JobMove call
        (Search.runnable jobs ((solver.search u jobs).precheck jobs).skipped))
      { present := (solver.search u jobs).initial } t ∧
      ((solver.search u jobs).carryOut (Rules.ofJob job call) job t left).result = .ok t' ∧
      ReflTransGen ((solver.search u jobs).JobMove call
        (Search.runnable jobs ((solver.search u jobs).precheck jobs).skipped)) t' t'' ∧
      d = (solver.search u jobs).decisions t'' := by
  simp only [solve] at h
  split at h
  · rename_i hproblems
    cases h
    obtain ⟨t, t', left, hbefore, hok, hafter⟩ :=
      Search.foldl_runJob_split hjob hmandatory (List.isEmpty_iff.mp hproblems)
    exact ⟨t, t', _, left, hbefore, hok, hafter, rfl⟩
  · cases h

/-- What holds of the installed system and is preserved by every move holds of a trial that has
the packages of the solution. -/
theorem solve_invariant {P : Trial → Prop} (h : (solver.solve u jobs call).outcome = .ok d)
    (hstart : P { present := u.installed.members })
    (hmove : ∀ job ∈ Search.runnable jobs ((solver.search u jobs).precheck jobs).skipped,
      ∀ t t', P t → (solver.search u jobs).Move (Rules.ofJob job call) job t t' → P t') :
    ∃ t, P t ∧ d.system u = t.present := by
  obtain ⟨-, t, hrun, rfl⟩ := solve_eq_ok h
  refine ⟨t, ?_, (solver.search u jobs).decisions_system t⟩
  clear h
  induction hrun with
  | refl => exact hstart
  | tail _ hstep ih =>
    obtain ⟨job, hjob, hstep⟩ := hstep
    exact hmove job hjob _ _ ih hstep

end Solver

end Depsolve
