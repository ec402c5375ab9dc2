import Depsolve.Proofs.Solver.Solution
import Depsolve.Request
/-!
# Which jobs are carried out

When nothing is refused, only optional jobs are left out, and no job that brings
packages in shares a name with one that erases.
-/
namespace Depsolve

namespace Search

variable {s : Search} {job wanted : Job} {c : Precheck} {index : Nat}

theorem mem_candidateNames {name : String} :
    name ∈ s.candidateNames job ↔ ∃ id ∈ s.candidates job, (s.get id).name = name := by
  rw [candidateNames, mem_eraseReps, mem_sortCmp, List.mem_map]

variable (s) in
/-- No package of the one job has the name of a package of the other. -/
def Apart (wanted erase : Job) : Prop :=
  ∀ a ∈ s.candidates wanted, ∀ b ∈ s.candidates erase, (s.get a).name ≠ (s.get b).name

theorem apart_of_isEmpty {erase : Job}
    (h : ((s.candidateNames wanted).filter (s.candidateNames erase).contains).isEmpty = true) :
    s.Apart wanted erase := by
  intro a ha b hb hname
  rw [List.isEmpty_iff, List.filter_eq_nil_iff] at h
  have hwanted := mem_candidateNames.mpr ⟨a, ha, rfl⟩
  have herase := mem_candidateNames.mpr ⟨b, hb, rfl⟩
  have hno := h _ hwanted
  rw [List.contains_iff_mem, hname] at hno
  exact hno herase

/-- A check that refuses nothing leaves out the job at hand if it is optional, and no other. -/
def Lenient (check : Precheck → Nat → Job → Precheck) : Prop :=
  ∀ c index job, (check c index job).problems = [] → c.problems = [] ∧
    ((check c index job).skipped = c.skipped ∨
      job.optional = true ∧ (check c index job).skipped = c.skipped.insert index)

theorem Lenient.skipped_subset {check : Precheck → Nat → Job → Precheck} (hcheck : Lenient check)
    (h : (check c index job).problems = []) :
    ∀ i ∈ c.skipped, i ∈ (check c index job).skipped := by
  intro i hi
  rcases (hcheck c index job h).2 with heq | ⟨-, heq⟩
  · rwa [heq]
  · rw [heq]
    exact IdSet.mem_insert.mpr (.inl hi)

theorem Lenient.foldl {check : Precheck → Nat → Job → Precheck} (hcheck : Lenient check)
    {numbered : List (Nat × Job)}
    (h : (numbered.foldl (fun c p => check c p.1 p.2) c).problems = []) :
    c.problems = [] ∧
      (∀ i ∈ c.skipped, i ∈ (numbered.foldl (fun c p => check c p.1 p.2) c).skipped) ∧
      ∀ i ∈ (numbered.foldl (fun c p => check c p.1 p.2) c).skipped,
        i ∈ c.skipped ∨ ∃ job, (i, job) ∈ numbered ∧ job.optional = true := by
  induction numbered generalizing c with
  | nil => exact ⟨h, fun _ hi => hi, fun _ hi => .inl hi⟩
  | cons p rest ih =>
    obtain ⟨hproblems, hmore, hless⟩ := ih h
    obtain ⟨hnil, hskipped⟩ := hcheck c p.1 p.2 hproblems
    refine ⟨hnil, fun i hi => hmore i (hcheck.skipped_subset hproblems i hi), fun i hi => ?_⟩
    · rcases hless i hi with hi | ⟨job, hjob, hoptional⟩
      · rcases hskipped with heq | ⟨hoptional, heq⟩
        · exact .inl (heq ▸ hi)
        · rw [heq] at hi
          rcases IdSet.mem_insert.mp hi with hi | rfl
          · exact .inl hi
          · exact .inr ⟨p.2, List.mem_cons_self, hoptional⟩
      · exact .inr ⟨job, List.mem_cons_of_mem _ hjob, hoptional⟩

theorem checkMatch_lenient : Lenient s.checkMatch := by
  intro c index job h
  simp only [checkMatch] at h ⊢
  split
  · rename_i hpass
    rw [if_pos hpass] at h
    exact ⟨h, .inl rfl⟩
  · rename_i hpass
    rw [if_neg hpass] at h
    split
    · rename_i hoptional
      rw [if_pos hoptional] at h
      exact ⟨h, .inr ⟨hoptional, rfl⟩⟩
    · rename_i hoptional
      rw [if_neg hoptional] at h
      exact absurd h (by simp [Precheck.refuse])

theorem problems_eq_nil_of_checkAgainst {others : List (Nat × Job)}
    (h : (s.checkAgainst index wanted others c).problems = []) : c.problems = [] := by
  induction others generalizing c with
  | nil => exact h
  | cons p others ih =>
    simp only [checkAgainst] at h
    split at h
    · exact ih h
    · split at h
      · exact ih h
      · split at h
        · exact h
        · exact absurd (ih h) (by simp [Precheck.refuse])

theorem checkAgainst_cases {others : List (Nat × Job)}
    (h : (s.checkAgainst index wanted others c).problems = []) :
    (s.checkAgainst index wanted others c = c ∧
      ∀ p ∈ others, p.2.kind = .erase → p.1 ∉ c.skipped → s.Apart wanted p.2) ∨
    wanted.optional = true ∧ ∃ n, s.checkAgainst index wanted others c = c.passOver index n := by
  induction others with
  | nil => exact .inl ⟨rfl, by simp⟩
  | cons p others ih =>
    simp only [checkAgainst] at h ⊢
    split
    · rename_i hpass
      rw [if_pos hpass] at h
      have hp : p.2.kind = .erase → p.1 ∉ c.skipped → s.Apart wanted p.2 := by
        intro hkind hskipped
        have hin : c.skipped.contains p.1 = true := by simpa [hkind] using hpass
        exact absurd hin hskipped
      exact (ih h).imp_left fun hall => ⟨hall.1, List.forall_mem_cons.mpr ⟨hp, hall.2⟩⟩
    · rename_i hpass
      rw [if_neg hpass] at h
      split
      · rename_i hempty
        rw [if_pos hempty] at h
        have hp : p.2.kind = .erase → p.1 ∉ c.skipped → s.Apart wanted p.2 :=
          fun _ _ => apart_of_isEmpty hempty
        exact (ih h).imp_left fun hall => ⟨hall.1, List.forall_mem_cons.mpr ⟨hp, hall.2⟩⟩
      · rename_i hempty
        rw [if_neg hempty] at h
        split
        · rename_i hoptional
          exact .inr ⟨hoptional, _, rfl⟩
        · rename_i hoptional
          rw [if_neg hoptional] at h
          exact absurd (problems_eq_nil_of_checkAgainst h) (by simp [Precheck.refuse])

theorem checkContradictions_lenient {others : List (Nat × Job)} :
    Lenient (s.checkContradictions others) := by
  intro c index job h
  rw [checkContradictions] at h ⊢
  split
  · rename_i hpass
    rw [if_pos hpass] at h
    exact ⟨h, .inl rfl⟩
  · rename_i hpass
    rw [if_neg hpass] at h
    refine ⟨problems_eq_nil_of_checkAgainst h, ?_⟩
    rcases checkAgainst_cases h with ⟨heq, -⟩ | ⟨hoptional, n, heq⟩
    · exact .inl (by rw [heq])
    · exact .inr ⟨hoptional, by rw [heq]; rfl⟩

theorem foldl_checkContradictions {others numbered : List (Nat × Job)}
    (h : (numbered.foldl (fun c p => s.checkContradictions others c p.1 p.2) c).problems = []) :
    ∀ p ∈ numbered, p.2.kind.installLike = true →
      p.1 ∉ (numbered.foldl (fun c p => s.checkContradictions others c p.1 p.2) c).skipped →
      ∀ q ∈ others, q.2.kind = .erase →
        q.1 ∉ (numbered.foldl (fun c p => s.checkContradictions others c p.1 p.2) c).skipped →
        s.Apart p.2 q.2 := by
  induction numbered generalizing c with
  | nil => simp
  | cons p rest ih =>
    refine List.forall_mem_cons.mpr ⟨fun hlike hp q hq hkind hqskipped => ?_, ih h⟩
    have hrest : (rest.foldl (fun c p => s.checkContradictions others c p.1 p.2)
        (s.checkContradictions others c p.1 p.2)).problems = [] := h
    obtain ⟨hproblems, hmore, -⟩ := checkContradictions_lenient.foldl hrest
    -- what is left out stays left out, so neither job was left out before this comparison
    have hkeeps := checkContradictions_lenient.skipped_subset hproblems
    have hpfree : p.1 ∉ c.skipped := fun hin => hp (hmore _ (hkeeps _ hin))
    have hqfree : q.1 ∉ c.skipped := fun hin => hqskipped (hmore _ (hkeeps _ hin))
    have hcheck : s.checkContradictions others c p.1 p.2 = s.checkAgainst p.1 p.2 others c := by
      rw [checkContradictions, if_neg]
      simpa [hlike] using Bool.eq_false_iff.mpr hpfree
    rw [hcheck] at hproblems
    rcases checkAgainst_cases hproblems with ⟨-, hall⟩ | ⟨-, n, heq⟩
    · exact hall q hq hkind hqfree
    · have hin : p.1 ∈ (s.checkContradictions others c p.1 p.2).skipped := by
        rw [hcheck, heq]
        exact IdSet.mem_insert.mpr (.inr rfl)
      exact absurd (hmore _ hin) hp

/-- Where nothing is refused only optional jobs are left out, and what is left is apart. -/
theorem precheck_spec {jobs : List Job} (h : (s.precheck jobs).problems = []) :
    (∀ i ∈ (s.precheck jobs).skipped, ∃ job, (job, i) ∈ jobs.zipIdx ∧ job.optional = true) ∧
    ∀ p ∈ jobs.zipIdx, p.1.kind.installLike = true → p.2 ∉ (s.precheck jobs).skipped →
      ∀ q ∈ jobs.zipIdx, q.1.kind = .erase → q.2 ∉ (s.precheck jobs).skipped →
        s.Apart p.1 q.1 := by
  let numbered := jobs.zipIdx.map fun p => (p.2, p.1)
  let matched := numbered.foldl (fun c p => s.checkMatch c p.1 p.2) {}
  have heq : s.precheck jobs =
      numbered.foldl (fun c p => s.checkContradictions numbered c p.1 p.2) matched :=
    (foldl_checkGuarded h).1
  rw [heq] at h ⊢
  obtain ⟨hmatched, -, hgaveWay⟩ := checkContradictions_lenient.foldl h
  obtain ⟨-, -, hunmatched⟩ := checkMatch_lenient.foldl hmatched
  have hplace : ∀ {i : Nat} {job : Job}, (i, job) ∈ numbered ↔ (job, i) ∈ jobs.zipIdx := by
    intro i job
    simp only [numbered, List.mem_map, Prod.exists, Prod.mk.injEq]
    constructor
    · rintro ⟨_, _, hmem, rfl, rfl⟩
      exact hmem
    · exact fun hmem => ⟨job, i, hmem, rfl, rfl⟩
  constructor
  · intro i hi
    rcases hgaveWay i hi with hi | ⟨job, hjob, hoptional⟩
    · rcases hunmatched i hi with hi | ⟨job, hjob, hoptional⟩
      · exact absurd hi (IdSet.not_mem_empty i)
      · exact ⟨job, hplace.mp hjob, hoptional⟩
    · exact ⟨job, hplace.mp hjob, hoptional⟩
  · intro p hp hlike hpfree q hq hkind hqfree
    exact foldl_checkContradictions h _ (hplace.mpr hp) hlike hpfree _ (hplace.mpr hq) hkind hqfree

end Search

/-- The only jobs of requests that may be passed over are installs. -/
theorem Job.optional_of_made {u : Universe} {job : Job} (hkind : job.kind ≠ .install)
    (hmade : job.optional = false ∨ ∃ r demands, Request.job u demands r = job) :
    job.optional = false := by
  rcases hmade with hmandatory | ⟨r, demands, rfl⟩
  · exact hmandatory
  · cases r <;> simp [Request.job, Request.selected, Request.everything] at hkind ⊢

namespace Solver

/-- The jobs that are carried out. -/
def admitted (solver : Solver) (u : Universe) (jobs : List Job) : List Job :=
  Search.runnable jobs ((solver.search u jobs).precheck jobs).skipped

variable {solver : Solver} {u : Universe} {jobs : List Job} {job wanted erase : Job}

theorem mem_of_mem_admitted (h : job ∈ solver.admitted u jobs) : job ∈ jobs :=
  Search.mem_of_mem_runnable h

theorem unguarded_of_mem_admitted (h : job ∈ solver.admitted u jobs) (hkind : job.kind = .erase)
    {id : PackageId} (hid : id ∈ (solver.search u jobs).candidates job) :
    id ∉ (solver.search u jobs).guarded := by
  obtain ⟨index, hmem, -, hfree⟩ := Search.mem_runnable.mp h
  exact Search.unguarded_of_foldl_checkGuarded (index, job)
    (List.mem_map.mpr ⟨(job, index), hmem, rfl⟩) hkind hfree id hid

theorem notMem_skipped (h : ((solver.search u jobs).precheck jobs).problems = []) {index : Nat}
    (hget : jobs[index]? = some job) (hmandatory : job.optional = false) :
    index ∉ ((solver.search u jobs).precheck jobs).skipped := by
  intro hskipped
  obtain ⟨other, hother, hoptional⟩ := (Search.precheck_spec h).1 index hskipped
  have hsame : some other = some job := (List.mk_mem_zipIdx_iff_getElem?.mp hother).symm.trans hget
  cases hsame
  exact absurd (hmandatory.symm.trans hoptional) (by decide)

theorem mem_admitted (h : ((solver.search u jobs).precheck jobs).problems = [])
    (hjob : job ∈ jobs) (hkind : job.kind ≠ .guard) (hmandatory : job.optional = false) :
    job ∈ solver.admitted u jobs := by
  obtain ⟨index, hget⟩ := List.mem_iff_getElem?.mp hjob
  exact Search.mem_runnable.mpr ⟨index, List.mk_mem_zipIdx_iff_getElem?.mpr hget, hkind,
    notMem_skipped h hget hmandatory⟩

theorem apart_of_mem_admitted (h : ((solver.search u jobs).precheck jobs).problems = [])
    (hwanted : wanted ∈ solver.admitted u jobs) (hlike : wanted.kind.installLike = true)
    (herase : erase ∈ solver.admitted u jobs) (hkind : erase.kind = .erase) :
    (solver.search u jobs).Apart wanted erase := by
  obtain ⟨i, hi, -, hifree⟩ := Search.mem_runnable.mp hwanted
  obtain ⟨j, hj, -, hjfree⟩ := Search.mem_runnable.mp herase
  exact (Search.precheck_spec h).2 _ hi hlike hifree _ hj hkind hjfree

end Solver

end Depsolve
