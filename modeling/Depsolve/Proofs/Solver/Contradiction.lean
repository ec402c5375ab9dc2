import Depsolve.Proofs.Solver.Admission
import Depsolve.Proofs.Solver.Turn
import Depsolve.Proofs.Universe.Sample
import Mathlib.Data.List.Nodup
/-!
# Requests that contradict each other

A job that has to bring packages in and an erase of packages of the same name are both refused.
The erase is left out from then on, so no later job is compared with it. Each erase that is
contradicted is reported once, together with the first job that contradicts it.
-/
namespace Depsolve

namespace Search

variable {s : Search} {job wanted erase first : Job} {jobs : List Job} {index : Nat}
  {c c' : Precheck} {numbered others before rest : List (Nat × Job)} {reported : List Problem}
  {x : Problem} {p q : Nat × Job}

variable (s) in
/-- A job that has to bring packages in shares a package name with one that erases. -/
structure Contradicts (wanted erase : Job) : Prop where
  installLike : wanted.kind.installLike = true
  mandatory : wanted.optional = false
  kind : erase.kind = .erase
  shared : ¬ s.Apart wanted erase

instance : Decidable (s.Apart wanted erase) :=
  inferInstanceAs (Decidable (∀ a ∈ s.candidates wanted, ∀ b ∈ s.candidates erase,
    (s.get a).name ≠ (s.get b).name))

instance : Decidable (s.Contradicts wanted erase) :=
  decidable_of_iff (wanted.kind.installLike = true ∧ wanted.optional = false ∧
      erase.kind = .erase ∧ ¬ s.Apart wanted erase)
    ⟨fun h => ⟨h.1, h.2.1, h.2.2.1, h.2.2.2⟩, fun h => ⟨h.1, h.2, h.3, h.4⟩⟩

variable (s) in
def opponent? (jobs : List Job) (erase : Job) : Option Job :=
  jobs.find? fun wanted => decide (s.Contradicts wanted erase)

variable (s) in
def clash (wanted erase : Job) : Problem :=
  s.contradiction wanted erase
    ((s.candidateNames wanted).filter (s.candidateNames erase).contains)

theorem opponent?_isSome :
    (s.opponent? jobs erase).isSome = true ↔ ∃ wanted ∈ jobs, s.Contradicts wanted erase := by
  simp [opponent?]

theorem opponent?_concat_of_not (h : ¬ s.Contradicts job erase) :
    s.opponent? (jobs ++ [job]) erase = s.opponent? jobs erase := by
  simp [opponent?, h]

theorem opponent?_concat (h : s.Contradicts job erase) :
    s.opponent? (jobs ++ [job]) erase = some ((s.opponent? jobs erase).getD job) := by
  simp only [opponent?, List.find?_append, List.find?_singleton, h, decide_true, if_true]
  cases jobs.find? fun wanted => decide (s.Contradicts wanted erase) <;> rfl

theorem isEmpty_filter_candidateNames :
    ((s.candidateNames wanted).filter (s.candidateNames erase).contains).isEmpty = true ↔
      s.Apart wanted erase := by
  constructor
  · exact apart_of_isEmpty
  · intro hapart
    rw [List.isEmpty_iff, List.filter_eq_nil_iff]
    intro name hwanted herase
    obtain ⟨a, ha, rfl⟩ := mem_candidateNames.mp hwanted
    obtain ⟨b, hb, hname⟩ := mem_candidateNames.mp (List.contains_iff_mem.mp herase)
    exact hapart a ha b hb hname.symm

variable (s wanted) in
/-- A job at some place was compared with others. Those that it contradicts are reported and left
out, if they were not left out before. -/
structure Compared (index : Nat) (others : List (Nat × Job)) (c c' : Precheck) : Prop where
  problems : ∀ x, x ∈ c'.problems ↔ x ∈ c.problems ∨ ∃ q ∈ others, q.1 ∉ c.skipped ∧
    s.Contradicts wanted q.2 ∧ x = s.clash wanted q.2
  skipped : ∀ i, i ≠ index → (i ∈ c'.skipped ↔
    i ∈ c.skipped ∨ ∃ q ∈ others, q.1 = i ∧ s.Contradicts wanted q.2)

theorem Compared.mem_skipped (h : s.Compared wanted index others c c')
    (hplaces : (others.map Prod.fst).Nodup) (hq : q ∈ others) (hne : q.1 ≠ index) :
    q.1 ∈ c'.skipped ↔ q.1 ∈ c.skipped ∨ s.Contradicts wanted q.2 := by
  rw [h.skipped q.1 hne]
  apply or_congr_right
  constructor
  · intro hfound
    obtain ⟨r, hr, heq, hcontradicts⟩ := hfound
    rwa [List.inj_on_of_nodup_map hplaces hr hq heq] at hcontradicts
  · intro hcontradicts
    exact ⟨q, hq, rfl, hcontradicts⟩

theorem Compared.refl (h : ∀ erase, ¬ s.Contradicts wanted erase) :
    s.Compared wanted index others c c where
  problems := by simp [h]
  skipped := by simp [h]

theorem Compared.passOver (h : ∀ erase, ¬ s.Contradicts wanted erase) (note : Note) :
    s.Compared wanted index others c (c.passOver index note) where
  problems := by simp [Precheck.passOver, h]
  skipped := by
    intro i hi
    simp [Precheck.passOver, h, hi]

theorem Compared.pass (h : s.Compared wanted index others c c')
    (hq : s.Contradicts wanted q.2 → q.1 ∈ c.skipped) :
    s.Compared wanted index (q :: others) c c' where
  problems := by
    intro x
    rw [h.problems x, List.exists_mem_cons_iff, or_congr_right]
    simp only [iff_or_self, and_imp]
    intro hfree hcontradicts
    exact absurd (hq hcontradicts) hfree
  skipped := by
    intro i hi
    rw [h.skipped i hi, List.exists_mem_cons_iff, ← or_assoc]
    apply or_congr_left
    simp only [iff_self_or, and_imp]
    rintro rfl hcontradicts
    exact hq hcontradicts

theorem Compared.refuse (hcontradicts : s.Contradicts wanted q.2) (hfree : q.1 ∉ c.skipped)
    (hother : ∀ r ∈ others, r.2.kind = .erase → r.1 ≠ index ∧ r.1 ≠ q.1)
    (h : s.Compared wanted index others { c.refuse index (s.clash wanted q.2) with
      skipped := (c.skipped.insert index).insert q.1 } c') :
    s.Compared wanted index (q :: others) c c' where
  problems := by
    intro x
    rw [h.problems x, List.exists_mem_cons_iff, Precheck.refuse, List.mem_append,
      List.mem_singleton, or_assoc]
    apply or_congr_right
    apply or_congr
    · simp [hfree, hcontradicts]
    · apply exists_congr
      intro r
      apply and_congr_right
      intro hr
      simp only [IdSet.mem_insert, not_or]
      constructor
      · intro hclash
        exact ⟨hclash.1.1.1, hclash.2⟩
      · intro hclash
        obtain ⟨hindex, hplace⟩ := hother r hr hclash.2.1.kind
        exact ⟨⟨⟨hclash.1, hindex⟩, hplace⟩, hclash.2⟩
  skipped := by
    intro i hi
    rw [h.skipped i hi, List.exists_mem_cons_iff]
    simp only [IdSet.mem_insert, hi, or_false, hcontradicts, and_true, or_assoc, eq_comm]

theorem checkAgainst_compared (hlike : wanted.kind.installLike = true)
    (hplaces : (others.map Prod.fst).Nodup)
    (hindex : ∀ q ∈ others, q.2.kind = .erase → q.1 ≠ index) :
    s.Compared wanted index others c (s.checkAgainst index wanted others c) := by
  induction others generalizing c with
  | nil => exact ⟨fun x => by simp [checkAgainst], fun i _ => by simp [checkAgainst]⟩
  | cons q others ih =>
    obtain ⟨hplace, hplaces⟩ := List.nodup_cons.mp hplaces
    obtain ⟨-, hindex⟩ := List.forall_mem_cons.mp hindex
    simp only [checkAgainst]
    split
    · rename_i hpass
      apply (ih hplaces hindex).pass
      intro hcontradicts
      have hskipped : c.skipped.contains q.1 = true := by simpa [hcontradicts.kind] using hpass
      exact hskipped
    · rename_i hpass
      have hkind : q.2.kind = .erase := by
        by_contra hkind
        exact hpass (by simp [hkind])
      have hfree : q.1 ∉ c.skipped := by
        intro hin
        exact hpass (by simp [IdSet.contains_iff_mem.mpr hin])
      split
      · rename_i hapart
        apply (ih hplaces hindex).pass
        intro hcontradicts
        exact absurd (isEmpty_filter_candidateNames.mp hapart) hcontradicts.shared
      · rename_i hshared
        split
        · rename_i hoptional
          apply Compared.passOver
          intro other hcontradicts
          exact absurd (hcontradicts.mandatory.symm.trans hoptional) (by decide)
        · rename_i hoptional
          have hcontradicts : s.Contradicts wanted q.2 := ⟨hlike, by simpa using hoptional, hkind,
            fun hapart => hshared (isEmpty_filter_candidateNames.mpr hapart)⟩
          apply Compared.refuse hcontradicts hfree ?_ (ih hplaces hindex)
          intro r hr hkind
          refine ⟨hindex r hr hkind, ?_⟩
          intro heq
          exact hplace (heq ▸ List.mem_map_of_mem hr)

theorem Contradicts.not_of_kind (hkind : job.kind = .erase) : ¬ s.Contradicts job erase := by
  intro h
  have hlike := h.installLike
  rw [hkind] at hlike
  exact absurd hlike (by decide)

/-- The comparison is skipped for a job that contradicts nothing. -/
theorem checkContradictions_compared (hplaces : (others.map Prod.fst).Nodup)
    (hindex : ∀ q ∈ others, q.1 = index → q.2 = job)
    (hskipped : index ∈ c.skipped → ∀ erase, ¬ s.Contradicts job erase) :
    s.Compared job index others c (s.checkContradictions others c index job) := by
  rw [checkContradictions]
  split
  · rename_i hpass
    apply Compared.refl
    intro erase hcontradicts
    have hin : c.skipped.contains index = true := by simpa [hcontradicts.installLike] using hpass
    exact hskipped hin erase hcontradicts
  · rename_i hpass
    have hlike : job.kind.installLike = true := by
      by_contra hlike
      exact hpass (by simp [hlike])
    apply checkAgainst_compared hlike hplaces
    intro q hq hkind heq
    rw [← hindex q hq heq, hkind] at hlike
    exact absurd hlike (by decide)

theorem checkContradictions_of_kind (hkind : job.kind = .erase) :
    s.checkContradictions others c index job = c := by
  rw [checkContradictions, if_pos]
  simp [hkind, JobKind.installLike]

variable (s numbered reported) in
/-- Some jobs were compared with all. An erase is left out once it was contradicted, and reported
with the first of the jobs that contradict it. -/
structure Reported (before : List (Nat × Job)) (c : Precheck) : Prop where
  problems : ∀ x, x ∈ c.problems ↔ x ∈ reported ∨ ∃ q ∈ numbered, ∃ first,
    s.opponent? (before.map Prod.snd) q.2 = some first ∧ x = s.clash first q.2
  skipped : ∀ q ∈ numbered, (∃ wanted, s.Contradicts wanted q.2) →
    (q.1 ∈ c.skipped ↔ (s.opponent? (before.map Prod.snd) q.2).isSome = true)
  waiting : ∀ q ∈ numbered, q ∉ before → q.1 ∈ c.skipped →
    ∀ erase, ¬ s.Contradicts q.2 erase

theorem Reported.compared (h : s.Reported numbered reported before c)
    (hplaces : (numbered.map Prod.fst).Nodup) (hp : p ∈ numbered) (hnew : p ∉ before) :
    s.Compared p.2 p.1 numbered c (s.checkContradictions numbered c p.1 p.2) := by
  apply checkContradictions_compared hplaces
  · intro q hq heq
    rw [List.inj_on_of_nodup_map hplaces hq hp heq]
  · exact h.waiting p hp hnew

theorem Reported.step (h : s.Reported numbered reported before c)
    (hplaces : (numbered.map Prod.fst).Nodup) (hp : p ∈ numbered) (hnew : p ∉ before) :
    s.Reported numbered reported (before ++ [p])
      (s.checkContradictions numbered c p.1 p.2) := by
  have hcompared := h.compared hplaces hp hnew
  constructor
  · intro x
    rw [hcompared.problems, h.problems, or_assoc, List.map_append, List.map_singleton]
    apply or_congr_right
    rw [← exists_or]
    apply exists_congr
    intro q
    rw [← and_or_left]
    apply and_congr_right
    intro hq
    -- a contradicted erase is still compared as long as no job before has contradicted it
    by_cases hcontradicts : s.Contradicts p.2 q.2
    · rw [opponent?_concat hcontradicts, h.skipped q hq ⟨_, hcontradicts⟩]
      cases s.opponent? (before.map Prod.snd) q.2 <;> simp [hcontradicts]
    · rw [opponent?_concat_of_not hcontradicts]
      simp [hcontradicts]
  · intro q hq hcontradicted
    rw [List.map_append, List.map_singleton]
    by_cases heq : q.1 = p.1
    · -- an erase contradicts nothing, so at its own place nothing changes
      cases List.inj_on_of_nodup_map hplaces hq hp heq
      have hkind : p.2.kind = .erase := hcontradicted.choose_spec.kind
      rw [checkContradictions_of_kind hkind,
        opponent?_concat_of_not (Contradicts.not_of_kind hkind)]
      exact h.skipped p hp hcontradicted
    · rw [hcompared.mem_skipped hplaces hq heq, h.skipped q hq hcontradicted]
      by_cases hcontradicts : s.Contradicts p.2 q.2
      · simp [opponent?_concat hcontradicts, hcontradicts]
      · simp [opponent?_concat_of_not hcontradicts, hcontradicts]
  · intro q hq hwaiting hskipped erase hcontradicts
    simp only [List.mem_append, List.mem_singleton, not_or] at hwaiting
    have hne : q.1 ≠ p.1 :=
      fun heq => hwaiting.2 (List.inj_on_of_nodup_map hplaces hq hp heq)
    rcases (hcompared.mem_skipped hplaces hq hne).mp hskipped with hold | hnow
    · exact h.waiting q hq hwaiting.1 hold erase hcontradicts
    · exact Contradicts.not_of_kind hnow.kind hcontradicts

theorem Reported.foldl (h : s.Reported numbered reported before c)
    (hplaces : (numbered.map Prod.fst).Nodup) (hnumbered : numbered = before ++ rest) :
    s.Reported numbered reported numbered
      (rest.foldl (fun c p => s.checkContradictions numbered c p.1 p.2) c) := by
  induction rest generalizing before c with
  | nil =>
    rw [List.append_nil] at hnumbered
    exact hnumbered ▸ h
  | cons p rest ih =>
    have hp : p ∈ numbered := by simp [hnumbered]
    have hnew : p ∉ before := by
      have hnodup : numbered.Nodup := hplaces.of_map _
      rw [hnumbered] at hnodup
      intro hin
      exact List.disjoint_of_nodup_append hnodup hin List.mem_cons_self
    exact ih (h.step hplaces hp hnew) (by rw [hnumbered, List.append_assoc, List.singleton_append])

/-- Jobs that match nothing are found first. They contradict none. -/
theorem foldl_checkMatch_unmatched :
    (∀ x ∈ (numbered.foldl (fun c p => s.checkMatch c p.1 p.2) {}).problems, x.kind = .noMatch) ∧
      ∀ i ∈ (numbered.foldl (fun c p => s.checkMatch c p.1 p.2) {}).skipped,
        ∃ job, (i, job) ∈ numbered ∧ s.candidates job = [] := by
  apply List.foldlRecOn numbered (fun c p => s.checkMatch c p.1 p.2)
    (motive := fun c => (∀ x ∈ c.problems, x.kind = .noMatch) ∧
      ∀ i ∈ c.skipped, ∃ job, (i, job) ∈ numbered ∧ s.candidates job = [])
  · exact ⟨by simp, fun i hi => absurd hi (IdSet.not_mem_empty i)⟩
  · intro c h p hp
    obtain ⟨hproblems, hskipped⟩ := h
    simp only [checkMatch]
    split
    · exact ⟨hproblems, hskipped⟩
    · rename_i hmatch
      have hempty : s.candidates p.2 = [] := by
        by_contra hempty
        exact hmatch (by simp [hempty])
      have hinsert : ∀ i ∈ c.skipped.insert p.1,
          ∃ job, (i, job) ∈ numbered ∧ s.candidates job = [] := by
        intro i hi
        rcases IdSet.mem_insert.mp hi with hi | rfl
        · exact hskipped i hi
        · exact ⟨p.2, hp, hempty⟩
      split
      · exact ⟨hproblems, hinsert⟩
      · refine ⟨?_, hinsert⟩
        intro x hx
        rcases List.mem_append.mp hx with hx | hx
        · exact hproblems x hx
        · cases List.mem_singleton.mp hx
          rfl

theorem mem_foldl_checkGuarded (hkind : x.kind ≠ .guarded) :
    x ∈ (numbered.foldl (fun c p => s.checkGuarded c p.1 p.2) c).problems ↔ x ∈ c.problems := by
  induction numbered generalizing c with
  | nil => rfl
  | cons p rest ih =>
    rw [List.foldl_cons, ih]
    simp only [checkGuarded]
    split
    · rfl
    · rw [Precheck.refuse, List.mem_append, List.mem_singleton]
      apply or_iff_left
      rintro rfl
      exact hkind rfl

theorem reported_foldl_checkMatch (hplaces : (numbered.map Prod.fst).Nodup) :
    s.Reported numbered (numbered.foldl (fun c p => s.checkMatch c p.1 p.2) {}).problems []
      (numbered.foldl (fun c p => s.checkMatch c p.1 p.2) {}) := by
  have hempty : ∀ q ∈ numbered,
      q.1 ∈ (numbered.foldl (fun c p => s.checkMatch c p.1 p.2) {}).skipped →
      s.candidates q.2 = [] := by
    intro q hq hskipped
    obtain ⟨job, hjob, hempty⟩ := foldl_checkMatch_unmatched.2 q.1 hskipped
    have hsame : q = (q.1, job) := List.inj_on_of_nodup_map hplaces hq hjob rfl
    rw [hsame]
    exact hempty
  constructor
  · simp [opponent?]
  · intro q hq hcontradicted
    obtain ⟨wanted, hcontradicts⟩ := hcontradicted
    apply iff_of_false
    · intro hskipped
      apply hcontradicts.shared
      intro a _ b hb
      rw [hempty q hq hskipped] at hb
      cases hb
    · simp [opponent?]
  · intro q hq _ hskipped erase hcontradicts
    apply hcontradicts.shared
    intro a ha
    rw [hempty q hq hskipped] at ha
    cases ha

/-- Besides protected packages, the checks report each job that matches nothing, and each erase that
is contradicted, with the first job that contradicts it. -/
theorem mem_precheck (s : Search) (jobs : List Job) {x : Problem} (hkind : x.kind ≠ .guarded) :
    x ∈ (s.precheck jobs).problems ↔
      x ∈ ((jobs.zipIdx.map fun p => (p.2, p.1)).foldl
        (fun c p => s.checkMatch c p.1 p.2) {}).problems ∨
      ∃ erase ∈ jobs, ∃ first, s.opponent? jobs erase = some first ∧ x = s.clash first erase := by
  let numbered := jobs.zipIdx.map fun p => (p.2, p.1)
  have hjobs : numbered.map Prod.snd = jobs := by
    simp [numbered, Function.comp_def]
  have hplaces : (numbered.map Prod.fst).Nodup := by
    simp [numbered, Function.comp_def, List.nodup_range']
  have hmatched := (reported_foldl_checkMatch (s := s) hplaces).foldl hplaces rfl
  rw [precheck, mem_foldl_checkGuarded hkind, hmatched.problems x, hjobs]
  apply or_congr_right
  constructor
  · rintro ⟨q, hq, hfound⟩
    exact ⟨q.2, hjobs ▸ List.mem_map_of_mem hq, hfound⟩
  · rintro ⟨erase, herase, hfound⟩
    rw [← hjobs] at herase
    obtain ⟨q, hq, rfl⟩ := List.mem_map.mp herase
    exact ⟨q, hq, hfound⟩

theorem precheck_contradictions (s : Search) (jobs : List Job) (x : Problem) :
    x ∈ (s.precheck jobs).problems ∧ x.kind = .jobConflict ↔
      ∃ erase ∈ jobs, ∃ first, s.opponent? jobs erase = some first ∧ x = s.clash first erase := by
  constructor
  · intro h
    obtain ⟨hx, hkind⟩ := h
    rcases (s.mem_precheck jobs (by rw [hkind]; decide)).mp hx with hunmatched | hfound
    · rw [foldl_checkMatch_unmatched.1 x hunmatched] at hkind
      cases hkind
    · exact hfound
  · intro h
    obtain ⟨erase, herase, first, hfirst, rfl⟩ := h
    have hkind : (s.clash first erase).kind = .jobConflict := rfl
    refine ⟨(s.mem_precheck jobs (by rw [hkind]; decide)).mpr (.inr ?_), hkind⟩
    exact ⟨erase, herase, first, hfirst, rfl⟩

theorem kind_of_mem_precheck {jobs : List Job} {x : Problem} (h : x ∈ (s.precheck jobs).problems) :
    x.kind ≠ .unresolvable := by
  intro hkind
  rcases (s.mem_precheck jobs (by rw [hkind]; decide)).mp h with hunmatched | ⟨_, -, _, -, rfl⟩
  · rw [foldl_checkMatch_unmatched.1 x hunmatched] at hkind
    cases hkind
  · cases hkind

end Search

namespace Solver

variable {solver : Solver} {u : Universe} {jobs : List Job} {wanted erase : Job}

/-- A goal with two jobs that contradict each other is refused. Each contradicted erase is
reported with the first of the jobs that contradict it, and no other pair is. -/
theorem solve_contradicts (call : Demands) (hwanted : wanted ∈ jobs) (herase : erase ∈ jobs)
    (h : (solver.search u jobs).Contradicts wanted erase) :
    ∃ problems first, (solver.solve u jobs call).outcome = .error problems ∧
      (solver.search u jobs).opponent? jobs erase = some first ∧
      (solver.search u jobs).clash first erase ∈ problems ∧
      ∀ x ∈ ((solver.search u jobs).precheck jobs).problems, x.kind = .jobConflict →
        x ∈ problems ∧ ∃ other ∈ jobs, ∃ rival,
          (solver.search u jobs).opponent? jobs other = some rival ∧
          x = (solver.search u jobs).clash rival other := by
  have hsome := Search.opponent?_isSome.mpr ⟨wanted, hwanted, h⟩
  obtain ⟨first, hfirst⟩ := Option.isSome_iff_exists.mp hsome
  have hclash := ((solver.search u jobs).precheck_contradictions jobs _).mpr
    ⟨erase, herase, first, hfirst, rfl⟩
  have hproblems : ∀ x ∈ ((solver.search u jobs).precheck jobs).problems,
      x ∈ solver.problemsAt u jobs call jobs.length := fun x hx => List.mem_append_left _ hx
  refine ⟨solver.problemsAt u jobs call jobs.length, first, ?_, hfirst, hproblems _ hclash.1, ?_⟩
  · rw [solve_outcome, if_neg]
    intro hempty
    have hnone := hproblems _ hclash.1
    rw [List.isEmpty_iff.mp hempty] at hnone
    cases hnone
  · intro x hx hkind
    exact ⟨hproblems x hx, ((solver.search u jobs).precheck_contradictions jobs x).mp ⟨hx, hkind⟩⟩

/-- A tool and its manual, of which both are wanted and both are to be erased. -/
def toolAndManual : Universe :=
  .sample [] [.noarch "tool" "1", .noarch "tool-doc" "1"] (by decide +kernel)

def installTool : Job := { kind := .install, spec := "tool", target := .packages (.ofIds 1 2 [0]) }

def installManual : Job :=
  { kind := .install, spec := "tool-doc", target := .packages (.ofIds 1 2 [1]) }

def eraseTools : Job :=
  { kind := .erase, spec := "tool*", target := .packages (.ofIds 1 2 [0, 1]) }

theorem eraseTools_contradicted :
    ((Solver.mk [] [] 9 none).search toolAndManual
      [installTool, installManual, eraseTools]).Contradicts installManual eraseTools ∧
    ∃ problems, ((Solver.mk [] [] 9 none).solve toolAndManual
        [installTool, installManual, eraseTools] {}).outcome = .error problems ∧
      ((Solver.mk [] [] 9 none).search toolAndManual
        [installTool, installManual, eraseTools]).clash installTool eraseTools ∈ problems := by
  have h : ((Solver.mk [] [] 9 none).search toolAndManual
      [installTool, installManual, eraseTools]).Contradicts installManual eraseTools := by
    decide +kernel
  obtain ⟨problems, first, houtcome, hfirst, hclash, -⟩ :=
    solve_contradicts {} (by decide) (by decide) h
  have hsame : ((Solver.mk [] [] 9 none).search toolAndManual
      [installTool, installManual, eraseTools]).opponent? [installTool, installManual, eraseTools]
      eraseTools = some installTool := by
    decide +kernel
  cases hfirst.symm.trans hsame
  exact ⟨h, problems, houtcome, hclash⟩

/-- The manual is to be erased as well, but that is not reported: the erase was left out when it
was compared with the tool. -/
theorem installManual_unreported :
    ((Solver.mk [] [] 9 none).search toolAndManual
      [installTool, installManual, eraseTools]).Contradicts installManual eraseTools ∧
    ((Solver.mk [] [] 9 none).solve toolAndManual
      [installTool, installManual, eraseTools] {}).outcome = .error [{
        kind := .jobConflict
        message := "conflicting requests: \"install tool\" and \"erase tool*\" both involve tool"
        packages := [0] }] ∧
    ¬ ∃ problems, ((Solver.mk [] [] 9 none).solve toolAndManual
        [installTool, installManual, eraseTools] {}).outcome = .error problems ∧
      ((Solver.mk [] [] 9 none).search toolAndManual
        [installTool, installManual, eraseTools]).clash installManual eraseTools ∈ problems := by
  have houtcome : ((Solver.mk [] [] 9 none).solve toolAndManual
      [installTool, installManual, eraseTools] {}).outcome = .error [{
        kind := .jobConflict
        message := "conflicting requests: \"install tool\" and \"erase tool*\" both involve tool"
        packages := [0] }] := Solution.outcome_eq_error (by decide +kernel)
  refine ⟨by decide +kernel, houtcome, ?_⟩
  intro h
  obtain ⟨problems, hproblems, hclash⟩ := h
  cases hproblems.symm.trans houtcome
  have hpackages := congrArg Problem.packages (List.mem_singleton.mp hclash)
  exact absurd hpackages (by decide +kernel)

end Solver

end Depsolve
