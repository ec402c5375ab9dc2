import Depsolve.Proofs.Solver.Admission
import Depsolve.Proofs.Solver.Turn
/-!
# One package at a time

A move is a run of steps. Each step concerns one package, and a package that
comes in has a reason to: a job asks for it, it succeeds an installed package, or
it provides something that is missing.
-/
namespace Depsolve.Search

open Relation

variable {s : Search} {r : Rules} {job : Job} {t t' : Trial} {id : PackageId}

variable (s r job) in
/-- Why a job brings a package in. -/
inductive Wanted (t : Trial) (id : PackageId) : Prop
  | chosen (hkind : job.kind = .install) (hid : id ∈ s.candidates job)
      (habsent : ∀ c ∈ s.candidates job, c ∉ t.present)
  | successor {old : PackageId} (hold : old ∈ s.initial) (hpresent : old ∈ t.present)
      (hid : id ∈ s.successors r job t old)
  | provider {package : PackageId} {d : Dependency} (hpackage : package ∈ t.present)
      (hd : d ∈ (s.get package).requires) (hmissing : ∀ q ∈ s.pool.whatProvides d, q ∉ t.present)
      (hid : id ∈ s.providers r t d)

variable (s r job) in
inductive Step : Trial → Trial → Prop
  | mark {t : Trial} {reasons : Reasons} : Step t { t with reasons }
  | pin {t : Trial} {id : PackageId} (hpresent : id ∈ t.present) :
      Step t { t with pinned := t.pinned.insert id }
  | arrive {t : Trial} {id : PackageId} (hwanted : s.Wanted r job t id) (habsent : id ∉ t.present)
      (hfree : id ∉ t.forbidden) (hbuilds : ∀ old ∈ s.displacedBuilds t id, old ∉ t.pinned)
      (hobsoletes : ∀ old ∈ s.displacedByObsoletes t id, old ∉ t.pinned ∧ old ∉ s.guarded) :
      Step t (s.arrival t id)
  | remove {t : Trial} {id : PackageId} (hallowed : r.allowErasing = true ∨ job.kind = .erase)
      (hid : id ∈ s.initial) (hpinned : id ∉ t.pinned) (hguarded : id ∉ s.guarded) :
      Step t (t.without [id])
  | clean {t : Trial} {id : PackageId} (hkind : job.kind = .erase) (hclean : r.cleanDeps = true)
      (hunneeded : s.isUnneeded t id = true) : Step t { t with present := t.present.erase id }

/-- What a job has chosen stays chosen, and what was taken off for good stays so. -/
structure Keeps (t t' : Trial) : Prop where
  pinned : ∀ id ∈ t.pinned, id ∈ t'.pinned
  forbidden : ∀ id ∈ t.forbidden, id ∈ t'.forbidden

theorem Step.keeps (h : s.Step r job t t') : Keeps t t' := by
  cases h with
  | pin => exact ⟨fun _ hx => IdSet.mem_insert.mpr (.inl hx), fun _ hx => hx⟩
  | remove => exact ⟨fun _ hx => hx, fun _ hx => IdSet.mem_insert.mpr (.inl hx)⟩
  | mark | arrive | clean => exact ⟨fun _ hx => hx, fun _ hx => hx⟩

theorem keeps_of_run {R : Trial → Trial → Prop} (hR : ∀ t t', R t t' → Keeps t t')
    (h : ReflTransGen R t t') : Keeps t t' := by
  induction h with
  | refl => exact ⟨fun _ hx => hx, fun _ hx => hx⟩
  | tail _ hlast ih =>
    have hkeeps := hR _ _ hlast
    exact ⟨fun x hx => hkeeps.pinned x (ih.pinned x hx),
      fun x hx => hkeeps.forbidden x (ih.forbidden x hx)⟩

theorem Wanted.mem_considered (h : s.Wanted r job t id) : id ∈ s.pool.considered := by
  cases h with
  | chosen _ hid => exact mem_considered_of_mem_candidates hid
  | successor _ _ hid => exact mem_considered_of_mem_successors hid
  | provider _ _ _ hid => exact (mem_providers.mp hid).2.1

theorem Step.subset_or_arrival (h : s.Step r job t t') :
    (∀ x ∈ t'.present, x ∈ t.present) ∨ ∃ id, s.Wanted r job t id ∧ id ∉ t.present ∧
      id ∉ t.forbidden ∧ t' = s.arrival t id := by
  cases h with
  | mark | pin => exact .inl fun _ hx => hx
  | arrive hwanted habsent hfree => exact .inr ⟨_, hwanted, habsent, hfree, rfl⟩
  | remove | clean => exact .inl fun _ hx => (IdSet.mem_erase.mp hx).1

/-- What leaves is removed for good, cleaned up, or makes room for a package that comes in. -/
theorem Step.stays_or_leaves (h : s.Step r job t t') (hid : id ∈ t.present) :
    id ∈ t'.present ∨ (id ∈ t'.forbidden ∧ (r.allowErasing = true ∨ job.kind = .erase)) ∨
      (job.kind = .erase ∧ r.cleanDeps = true) ∨
      ∃ new, s.Wanted r job t new ∧ t' = s.arrival t new ∧
        (id ∈ s.displacedBuilds t new ∨ id ∈ s.displacedByObsoletes t new) := by
  cases h with
  | mark | pin => exact .inl hid
  | @arrive new hwanted =>
    by_cases hbuild : id ∈ s.displacedBuilds t new
    · exact .inr (.inr (.inr ⟨new, hwanted, rfl, .inl hbuild⟩))
    · by_cases hobsolete : id ∈ s.displacedByObsoletes t new
      · exact .inr (.inr (.inr ⟨new, hwanted, rfl, .inr hobsolete⟩))
      · exact .inl (mem_arrival.mpr (.inl ⟨hid, hbuild, hobsolete⟩))
  | @remove other hallowed =>
    by_cases heq : id = other
    · exact .inr (.inl ⟨IdSet.mem_insert.mpr (.inr heq), hallowed⟩)
    · exact .inl (IdSet.mem_erase.mpr ⟨hid, heq⟩)
  | clean hkind hclean => exact .inr (.inr (.inl ⟨hkind, hclean⟩))

theorem steps_of_add (hwanted : s.Wanted r job t id) (h : s.add t id = .ok t') :
    ReflTransGen (s.Step r job) t t' := by
  by_cases hpresent : id ∈ t.present
  · rw [add_of_mem hpresent] at h
    cases h
    exact .refl
  · obtain ⟨hfree, hbuilds, hobsoletes, rfl⟩ := add_eq_ok h hpresent
    exact .single (.arrive hwanted hpresent hfree hbuilds hobsoletes)

theorem firstViolation?_eq_missing {package : PackageId} {d : Dependency}
    (h : s.firstViolation? t = some (.missing package d)) :
    package ∈ t.present ∧ d ∈ (s.get package).requires ∧
      ∀ q ∈ s.pool.whatProvides d, q ∉ t.present := by
  obtain ⟨p, hp, hviolation⟩ := List.exists_of_findSome?_eq_some h
  have hpresent : p ∈ t.present := (IdSet.mem_diff.mp (IdSet.mem_toList.mp hp)).1
  rw [Links.violationOf?] at hviolation
  split at hviolation
  · rename_i need hfind
    cases hviolation
    have hneed := List.mem_of_find?_eq_some hfind
    have hempty := List.find?_some hfind
    rw [s.links_eq, Links.requiresOf_ofUniverse] at hneed
    obtain ⟨d, hd, rfl⟩ := List.mem_map.mp hneed
    refine ⟨hpresent, hd, fun q hq hthere => ?_⟩
    have hmem : q ∈ (Links.providers s.pool d).2.inter t.present :=
      IdSet.mem_inter.mpr ⟨Links.mem_providers.mpr hq, hthere⟩
    exact IdSet.isEmpty_iff.mp hempty q hmem
  · obtain ⟨ban, -, hban⟩ := List.exists_of_findSome?_eq_some hviolation
    obtain ⟨q, -, hq⟩ := Option.map_eq_some_iff.mp hban
    cases hq

section Mended

variable {b : Bool}

theorem RepairStep.steps (hb : b = true → job.kind = .erase)
    (h : s.RepairStep { r with eraseDependents := b } t t') : ReflTransGen (s.Step r job) t t' := by
  cases h with
  | remove _ hrep =>
    obtain ⟨hallowed, hid, hpinned, hguarded⟩ :=
      removal_eq_allowed.mp (removal_of_mem_repairs hrep)
    exact .single (.remove (hallowed.imp_right hb) hid hpinned hguarded)
  | add hviolation hrep hadd =>
    obtain ⟨package, d, rfl, hid⟩ := mem_providers_of_mem_repairs hrep
    obtain ⟨hpackage, hd, hmissing⟩ := firstViolation?_eq_missing hviolation
    exact steps_of_add (.provider hpackage hd hmissing hid) hadd

theorem Mended.steps (hb : b = true → job.kind = .erase)
    (h : s.Mended { r with eraseDependents := b } t t') : ReflTransGen (s.Step r job) t t' := by
  have hstep : s.RepairStep { r with eraseDependents := b } ≤ ReflTransGen (s.Step r job) :=
    fun _ _ hstep => hstep.steps hb
  exact reflTransGen_closed hstep _ _ h.1

end Mended

/-- The search pins a package before it comes in; as steps it is the other way round. -/
theorem steps_of_pinned_add (reason : Option Reason) (hwanted : s.Wanted r job t id)
    (h : s.add (pin reason t id) id = .ok t') :
    ReflTransGen (s.Step r job) t t' ∧ id ∈ t'.pinned := by
  by_cases hpresent : id ∈ t.present
  · have hsame := h.symm.trans (add_of_mem (by exact hpresent))
    cases hsame
    exact ⟨.head (.pin hpresent) (.single .mark), IdSet.mem_insert.mpr (.inr rfl)⟩
  · obtain ⟨hfree, hbuilds, hobsoletes, rfl⟩ := add_eq_ok h hpresent
    have hunpinned : ∀ old, old ∉ t.pinned.insert id → old ∉ t.pinned :=
      fun old hold hmem => hold (IdSet.mem_insert.mpr (.inl hmem))
    have harrive : s.Step r job t (s.arrival t id) :=
      .arrive hwanted hpresent hfree (fun old hold => hunpinned old (hbuilds old hold))
        fun old hold => (hobsoletes old hold).imp_left (hunpinned old)
    have hpin : s.Step r job (s.arrival t id) _ := .pin (mem_arrival.mpr (.inr rfl))
    exact ⟨.head harrive (.head hpin (.single .mark)), IdSet.mem_insert.mpr (.inr rfl)⟩

theorem Chosen.steps {reason : Option Reason} (hr : r.eraseDependents = false)
    (hwanted : s.Wanted r job t id) (h : s.Chosen r reason id t t') :
    ReflTransGen (s.Step r job) t t' ∧ id ∈ t'.pinned := by
  obtain ⟨t₁, hadd, hmended⟩ := h
  have hmend : ReflTransGen (s.Step r job) t₁ t' :=
    Mended.steps (b := r.eraseDependents) (fun h => absurd (hr ▸ h) (by decide)) hmended
  obtain ⟨hfirst, hpinned⟩ := steps_of_pinned_add reason hwanted hadd
  have hkeeps := keeps_of_run (fun _ _ hstep => hstep.keeps) hmend
  exact ⟨hfirst.trans hmend, hkeeps.pinned id hpinned⟩

theorem steps_of_without {ids : List PackageId} (hkind : job.kind = .erase)
    (hids : ∀ id ∈ ids, id ∈ s.initial ∧ id ∉ t.pinned ∧ id ∉ s.guarded) :
    ReflTransGen (s.Step r job) t (t.without ids) := by
  induction ids generalizing t with
  | nil => exact .refl
  | cons id ids ih =>
    obtain ⟨hid, hpinned, hguarded⟩ := hids id List.mem_cons_self
    have hfirst : s.Step r job t (t.without [id]) := .remove (.inr hkind) hid hpinned hguarded
    exact .head hfirst (ih fun x hx => hids x (List.mem_cons_of_mem _ hx))

theorem steps_of_targets (hkind : job.kind = .erase)
    (hguarded : ∀ id ∈ s.candidates job, id ∉ s.guarded)
    (hpinned : ∀ id ∈ s.targets job t, id ∉ t.pinned) :
    ReflTransGen (s.Step r job) t (t.without (s.targets job t)) := by
  apply steps_of_without hkind
  intro id hid
  obtain ⟨hcandidate, hinitial, -⟩ := mem_targets.mp hid
  exact ⟨hinitial, hpinned id hid, hguarded id hcandidate⟩

theorem chooseSuccessor_steps {old : PackageId} {left : Nat} (hr : r.eraseDependents = false)
    (hold : old ∈ s.initial) (hpresent : old ∈ t.present)
    (h : (s.chooseFirst r none t (s.successors r job t old) none left).result = .ok t') :
    ReflTransGen (s.Step r job) t t' := by
  obtain ⟨id, hid, hchosen⟩ := chooseFirst_eq_ok h
  exact (hchosen.steps hr (.successor hold hpresent hid)).1

theorem replaceOrKeep_steps {old : PackageId} {left : Nat} (hr : r.eraseDependents = false)
    (hold : old ∈ s.initial) (hpresent : old ∈ t.present)
    (h : (s.replaceOrKeep r t old (s.successors r job t old) left).result = .ok t') :
    ReflTransGen (s.Step r job) t t' := by
  rcases replaceOrKeep_eq_ok h with rfl | ⟨id, hid, hchosen⟩
  · exact .refl
  · exact (hchosen.steps hr (.successor hold hpresent hid)).1

theorem Move.steps (hr : r.eraseDependents = false)
    (herase : job.kind = .erase → ∀ id ∈ s.candidates job, id ∉ s.guarded)
    (h : s.Move r job t t') : ReflTransGen (s.Step r job) t t' := by
  cases h with
  | pin _ _ hpresent => exact .single (.pin hpresent)
  | install hkind hid habsent _ hchosen => exact (hchosen.steps hr (.chosen hkind hid habsent)).1
  | replace hold hpresent hid hchosen => exact (hchosen.steps hr (.successor hold hpresent hid)).1
  | erase hkind hpinned hmended =>
    exact (steps_of_targets hkind (herase hkind) hpinned).trans
      (Mended.steps (fun _ => hkind) hmended)
  | clean hkind hclean hunneeded => exact .single (.clean hkind hclean hunneeded)
  | mark => exact .single .mark

theorem steps_of_moves (hr : r.eraseDependents = false)
    (herase : job.kind = .erase → ∀ id ∈ s.candidates job, id ∉ s.guarded)
    (h : ReflTransGen (s.Move r job) t t') : ReflTransGen (s.Step r job) t t' := by
  have hmove : s.Move r job ≤ ReflTransGen (s.Step r job) :=
    fun _ _ hmove => hmove.steps hr herase
  exact reflTransGen_closed hmove _ _ h

theorem Step.of_mem_forbidden (h : s.Step r job t t') (hid : id ∈ t'.forbidden) :
    id ∈ t.forbidden ∨ id ∈ s.initial ∧ id ∉ s.guarded ∧
      (r.allowErasing = true ∨ job.kind = .erase) := by
  cases h with
  | mark | pin | arrive | clean => exact .inl hid
  | remove hallowed hinitial _ hguarded =>
    rcases IdSet.mem_insert.mp hid with hid | rfl
    · exact .inl hid
    · exact .inr ⟨hinitial, hguarded, hallowed⟩

theorem Step.of_mem_obsoleted {p : PackageId × PackageId} (h : s.Step r job t t')
    (hp : p ∈ t'.obsoleted) : p ∈ t.obsoleted ∨
      (s.get p.2).name ≠ (s.get p.1).name ∧
        (s.get p.1).obsoletesPackage (s.get p.2) = true := by
  cases h with
  | mark | pin | remove | clean => exact .inl hp
  | arrive =>
    rcases List.mem_append.mp hp with hnew | hold
    · obtain ⟨old, hdisplaced, rfl⟩ := List.mem_map.mp (List.mem_reverse.mp hnew)
      exact .inr (mem_displacedByObsoletes.mp hdisplaced).2.2
    · exact .inl hold

variable (s) in
/-- What a job has chosen is there, what was taken off for good is not, and no exclude hides what
is there. -/
structure Coherent (t : Trial) : Prop where
  pinned : ∀ id ∈ t.pinned, id ∈ t.present
  forbidden : ∀ id ∈ t.forbidden, id ∉ t.present
  considered : ∀ id ∈ t.present, id ∈ s.pool.considered

theorem Coherent.lt_size (ht : s.Coherent t) (hid : id ∈ t.present) : id < s.pool.size := by
  have hlt := PackageSet.lt_capacity (ht.considered id hid)
  rwa [s.pool.considered_capacity] at hlt

theorem coherent_initial : s.Coherent { present := s.pool.installed.members } where
  pinned := by simp
  forbidden := by simp
  considered := fun id hid => s.pool.installed_considered id (PackageSet.mem_def.mpr hid)

theorem Coherent.erase (ht : s.Coherent t) (hpinned : id ∉ t.pinned) :
    s.Coherent { t with present := t.present.erase id } where
  pinned := by
    intro x hx
    have hne : x ≠ id := fun heq => hpinned (heq ▸ hx)
    exact IdSet.mem_erase.mpr ⟨ht.pinned x hx, hne⟩
  forbidden := fun x hx hthere => ht.forbidden x hx (IdSet.mem_erase.mp hthere).1
  considered := fun x hx => ht.considered x (IdSet.mem_erase.mp hx).1

theorem Step.coherent (h : s.Step r job t t') (ht : s.Coherent t) : s.Coherent t' := by
  cases h with
  | mark => exact ⟨ht.pinned, ht.forbidden, ht.considered⟩
  | pin hpresent =>
    refine ⟨fun x hx => ?_, ht.forbidden, ht.considered⟩
    rcases IdSet.mem_insert.mp hx with hx | rfl
    · exact ht.pinned x hx
    · exact hpresent
  | arrive hwanted _ hfree hbuilds hobsoletes =>
    constructor
    · intro x hx
      have hbuild : x ∉ s.displacedBuilds t _ := fun hmem => hbuilds x hmem hx
      have hobsolete : x ∉ s.displacedByObsoletes t _ := fun hmem => (hobsoletes x hmem).1 hx
      exact mem_arrival.mpr (.inl ⟨ht.pinned x hx, hbuild, hobsolete⟩)
    · intro x hx hthere
      rcases mem_arrival.mp hthere with ⟨hold, -⟩ | rfl
      · exact ht.forbidden x hx hold
      · exact hfree hx
    · intro x hx
      rcases mem_arrival.mp hx with ⟨hold, -⟩ | rfl
      · exact ht.considered x hold
      · exact hwanted.mem_considered
  | @remove id _ _ hpinned =>
    have herased := ht.erase hpinned
    refine ⟨herased.pinned, fun x hx hthere => ?_, herased.considered⟩
    rcases IdSet.mem_insert.mp hx with hx | rfl
    · exact herased.forbidden x hx hthere
    · exact (IdSet.mem_erase.mp hthere).2 rfl
  | clean _ _ hunneeded => exact ht.erase (isUnneeded_iff.mp hunneeded).2.2.1

theorem after_moves (s : Search) (call : Demands) (t : Trial) (job : Job) :
    ReflTransGen (s.Move (Rules.ofJob job call) job) t (s.after call t job) := by
  have hmoves := s.runJob_trial call ⟨t, [], []⟩ job
  rwa [runJob_eq.1] at hmoves

theorem foldl_after_moves (s : Search) (call : Demands) (t : Trial) (jobs : List Job) :
    ReflTransGen (s.JobMove call jobs) t (jobs.foldl (s.after call) t) := by
  have hmoves := s.foldl_runJob_trial call jobs ⟨t, [], []⟩
  rwa [foldl_runJob_eq.1] at hmoves

variable (s) in
def JobStep (call : Demands) (jobs : List Job) (t t' : Trial) : Prop :=
  ∃ job ∈ jobs, s.Step (Rules.ofJob job call) job t t'

end Depsolve.Search

namespace Depsolve.Solver

open Relation

variable {solver : Solver} {u : Universe} {jobs : List Job} {call : Demands} {d : Decisions}
  {t t' : Trial}

/-- The steps that lead from one trial to another, taken by the jobs that are carried out. -/
def Run (solver : Solver) (u : Universe) (jobs : List Job) (call : Demands) :
    Trial → Trial → Prop :=
  ReflTransGen ((solver.search u jobs).JobStep call (solver.admitted u jobs))

theorem Run.trans {t₁ t₂ t₃ : Trial} (h : solver.Run u jobs call t₁ t₂)
    (h' : solver.Run u jobs call t₂ t₃) : solver.Run u jobs call t₁ t₃ :=
  ReflTransGen.trans h h'

theorem run_of_moves (h : ((solver.search u jobs).precheck jobs).problems = [])
    (hmoves : ReflTransGen ((solver.search u jobs).JobMove call
      (Search.runnable jobs ((solver.search u jobs).precheck jobs).skipped)) t t') :
    solver.Run u jobs call t t' := by
  refine reflTransGen_closed ?_ _ _ hmoves
  rintro t₁ t₂ ⟨job, hjob, hmove⟩
  have hguarded : job.kind = .erase → ∀ id ∈ (solver.search u jobs).candidates job,
      id ∉ (solver.search u jobs).guarded :=
    fun hkind _ hid => Search.notMem_guarded_of_runnable h hjob hkind hid
  exact ReflTransGen.mono (fun _ _ hstep => ⟨job, hjob, hstep⟩) _ _ (hmove.steps (by rfl) hguarded)

/-- What coherent trials keep along every step holds at the end of a run. -/
theorem Run.preserves {P : Trial → Prop} (h : solver.Run u jobs call t t')
    (ht : (solver.search u jobs).Coherent t) (hP : P t)
    (hstep : ∀ job ∈ solver.admitted u jobs, ∀ t t', (solver.search u jobs).Coherent t → P t →
      (solver.search u jobs).Step (Rules.ofJob job call) job t t' → P t') :
    (solver.search u jobs).Coherent t' ∧ P t' := by
  -- on the length of the run, with coherence carried along because `hstep` relies on it
  induction h with
  | refl => exact ⟨ht, hP⟩
  | tail _ hlast ih =>
    obtain ⟨job, hjob, hlast⟩ := hlast
    exact ⟨hlast.coherent ih.1, hstep job hjob _ _ ih.1 ih.2 hlast⟩

/-- A solution has the packages of a trial that the installed system leads to, and erases none of
them. -/
theorem exists_run (h : (solver.solve u jobs call).outcome = .ok d) :
    ∃ t, solver.Run u jobs call { present := u.installed.members } t ∧
      d.system u = t.present ∧ ∀ id ∈ d.erase, id ∉ t.present := by
  obtain ⟨hproblems, t, hmoves, rfl⟩ := solve_eq_ok h
  refine ⟨t, run_of_moves hproblems hmoves, (solver.search u jobs).decisions_system t, ?_⟩
  intro id hid
  exact (IdSet.mem_diff.mp (IdSet.mem_toList.mp hid)).2

theorem Run.coherent (h : solver.Run u jobs call t t')
    (ht : (solver.search u jobs).Coherent t) : (solver.search u jobs).Coherent t' :=
  (h.preserves (P := fun _ => True) ht trivial fun _ _ _ _ _ _ _ => trivial).1

theorem Run.keeps (h : solver.Run u jobs call t t') : Search.Keeps t t' := by
  refine Search.keeps_of_run ?_ h
  rintro t₁ t₂ ⟨_, -, hstep⟩
  exact hstep.keeps

theorem exists_carryOut (h : (solver.solve u jobs call).outcome = .ok d) {job : Job}
    (hjob : job ∈ jobs) (hkind : job.kind ≠ .guard) (hmandatory : job.optional = false) :
    ∃ t t' t'' left, solver.Run u jobs call { present := u.installed.members } t ∧
      ((solver.search u jobs).carryOut (Rules.ofJob job call) job t left).result = .ok t' ∧
      solver.Run u jobs call t t' ∧ solver.Run u jobs call t' t'' ∧
      d.system u = t''.present := by
  have hproblems := (solve_eq_ok h).1
  have hadmitted := mem_admitted hproblems hjob hkind hmandatory
  obtain ⟨t, t', t'', left, hbefore, hok, hafter, rfl⟩ :=
    solve_carries_out h hadmitted hmandatory
  have hduring : ReflTransGen ((solver.search u jobs).JobMove call
      (Search.runnable jobs ((solver.search u jobs).precheck jobs).skipped)) t t' :=
    ReflTransGen.mono (fun _ _ hmove => ⟨job, hadmitted, hmove⟩) _ _ (Search.carryOut_eq_ok hok)
  exact ⟨t, t', t'', left, run_of_moves hproblems hbefore, hok, run_of_moves hproblems hduring,
    run_of_moves hproblems hafter, (solver.search u jobs).decisions_system t''⟩

section Turns

variable {job : Job} {n : Nat}

theorem trialAt_moves (solver : Solver) (u : Universe) (jobs : List Job) (call : Demands)
    (n : Nat) : ReflTransGen ((solver.search u jobs).JobMove call
      (Search.runnable (jobs.take n) (solver.skipped u jobs)))
    { present := (solver.search u jobs).initial } (solver.trialAt u jobs call n) :=
  (solver.search u jobs).foldl_after_moves call _ _

theorem HasTurn.later_moves (h : solver.HasTurn u jobs n job) :
    ReflTransGen ((solver.search u jobs).JobMove call
        (Search.runnable jobs (solver.skipped u jobs)))
      ((solver.search u jobs).after call (solver.trialAt u jobs call n) job)
      (solver.trialAt u jobs call jobs.length) := by
  let later := Search.runnableFrom (n + 1) (jobs.drop (n + 1)) (solver.skipped u jobs)
  have hlast : solver.trialAt u jobs call jobs.length =
      later.foldl ((solver.search u jobs).after call)
        ((solver.search u jobs).after call (solver.trialAt u jobs call n) job) := by
    rw [trialAt, List.take_length, h.runnable_eq, List.foldl_append, List.foldl_cons]
    rfl
  have hlater : later ⊆ Search.runnable jobs (solver.skipped u jobs) := by
    intro other hmem
    rw [h.runnable_eq]
    exact List.mem_append_right _ (List.mem_cons_of_mem _ hmem)
  rw [hlast]
  exact ReflTransGen.mono (Search.jobMove_mono hlater) _ _
    ((solver.search u jobs).foldl_after_moves call _ later)

theorem after_steps (hjob : job ∈ solver.admitted u jobs) (t : Trial) :
    ReflTransGen ((solver.search u jobs).Step (Rules.ofJob job call) job) t
      ((solver.search u jobs).after call t job) :=
  Search.steps_of_moves (by rfl) (fun hkind _ hid => unguarded_of_mem_admitted hjob hkind hid)
    ((solver.search u jobs).after_moves call t job)

theorem run_of_steps (hjob : job ∈ solver.admitted u jobs)
    (h : ReflTransGen ((solver.search u jobs).Step (Rules.ofJob job call) job) t t') :
    solver.Run u jobs call t t' :=
  ReflTransGen.mono (fun _ _ hstep => ⟨job, hjob, hstep⟩) _ _ h

theorem run_foldl_after {turns : List Job} (hturns : turns ⊆ solver.admitted u jobs) (t : Trial) :
    solver.Run u jobs call t (turns.foldl ((solver.search u jobs).after call) t) := by
  induction turns generalizing t with
  | nil => exact .refl
  | cons job turns ih =>
    obtain ⟨hjob, hrest⟩ := List.cons_subset.mp hturns
    exact (run_of_steps hjob (after_steps hjob t)).trans (ih hrest _)

theorem HasTurn.run (h : solver.HasTurn u jobs n job) (call : Demands) :
    job ∈ solver.admitted u jobs ∧ solver.Run u jobs call
      { present := u.installed.members } (solver.trialAt u jobs call n) := by
  have hadmitted : solver.admitted u jobs = _ := h.runnable_eq
  rw [hadmitted]
  refine ⟨List.mem_append_right _ List.mem_cons_self, run_foldl_after ?_ _⟩
  rw [hadmitted]
  exact List.subset_append_left _ _

end Turns

end Depsolve.Solver
