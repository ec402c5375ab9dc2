import Depsolve.Proofs.Solver.Step
import Depsolve.Proofs.Solver.Turn
import Depsolve.Proofs.Universe.Sample
/-!
# Whose wish a package is

A package that an install chooses is recorded as the user's wish. What else comes in comes along
with others: it provides a requirement, or it takes the place of an installed package. An install
that finds such a package there is content with it and records nothing.
-/
namespace Depsolve

open Relation

namespace Search

variable {s : Search} {r : Rules} {job : Job} {jobs jobs' : List Job} {call : Demands}
  {t t' : Trial} {id x : PackageId}

variable (s) in
/-- A package may come in without being chosen by an install. -/
inductive ComesAlong (jobs : List Job) (x : PackageId) : Prop
  | provider {package : PackageId} {d : Dependency} (hpackage : package ∈ s.pool.considered)
      (hd : d ∈ (s.get package).requires) (hx : x ∈ s.pool.whatProvides d)
  | successor {job : Job} (hjob : job ∈ jobs) (hx : s.Supplants job x)

variable (s) in
/-- What is there was installed, was chosen by the user or came along, and nothing but the user's
choices is recorded. -/
structure Traced (jobs : List Job) (t : Trial) : Prop where
  considered : ∀ x ∈ t.present, x ∈ s.pool.considered
  recorded : ∀ x reason, t.reasons.get? x = some reason → reason = .user
  origin : ∀ x ∈ t.present,
    x ∈ s.initial ∨ t.reasons.get? x = some .user ∨ s.ComesAlong jobs x

theorem ComesAlong.mono (h : s.ComesAlong jobs x) (hsubset : jobs ⊆ jobs') :
    s.ComesAlong jobs' x := by
  cases h with
  | provider hpackage hd hx => exact .provider hpackage hd hx
  | successor hjob hx => exact .successor (hsubset hjob) hx

theorem Traced.mono (h : s.Traced jobs t) (hsubset : jobs ⊆ jobs') : s.Traced jobs' t where
  considered := h.considered
  recorded := h.recorded
  origin := fun x hx => (h.origin x hx).imp_right (Or.imp_right fun hcame => hcame.mono hsubset)

theorem traced_initial : s.Traced jobs { present := s.initial } where
  considered := fun x hx => s.pool.installed_considered x (mem_initial.mp hx)
  recorded := fun _ _ h => by cases h
  origin := fun _ hx => .inl hx

theorem Traced.leave (h : s.Traced jobs t) (hsubset : ∀ x ∈ t'.present, x ∈ t.present)
    (hreasons : t'.reasons = t.reasons) : s.Traced jobs t' where
  considered := fun x hx => h.considered x (hsubset x hx)
  recorded := by
    rw [hreasons]
    exact h.recorded
  origin := by
    rw [hreasons]
    exact fun x hx => h.origin x (hsubset x hx)

theorem Traced.add (h : s.Traced jobs t) (hadd : s.add t id = .ok t')
    (hid : id ∈ s.pool.considered)
    (horigin : t.reasons.get? id = some .user ∨ s.ComesAlong jobs id) :
    s.Traced jobs t' ∧ t'.reasons = t.reasons := by
  by_cases hpresent : id ∈ t.present
  · rw [add_of_mem hpresent] at hadd
    cases hadd
    exact ⟨h, rfl⟩
  · obtain ⟨-, -, -, rfl⟩ := add_eq_ok hadd hpresent
    refine ⟨⟨?_, h.recorded, ?_⟩, rfl⟩
    · intro x hx
      rcases mem_arrival.mp hx with hold | rfl
      · exact h.considered x hold.1
      · exact hid
    · intro x hx
      rcases mem_arrival.mp hx with hold | rfl
      · exact h.origin x hold.1
      · exact .inr horigin

theorem Traced.repair (h : s.Traced jobs t) (hstep : s.RepairStep r t t') :
    s.Traced jobs t' ∧ t'.reasons = t.reasons := by
  cases hstep with
  | remove => exact ⟨h.leave (fun x hx => (IdSet.mem_erase.mp hx).1) rfl, rfl⟩
  | add hviolation hrep hadd =>
    obtain ⟨package, d, rfl, hid⟩ := mem_providers_of_mem_repairs hrep
    obtain ⟨hpackage, hd, -⟩ := firstViolation?_eq_missing hviolation
    obtain ⟨hprovides, hconsidered, -⟩ := mem_providers.mp hid
    exact h.add hadd hconsidered (.inr (.provider (h.considered package hpackage) hd hprovides))

theorem Traced.mend (h : s.Traced jobs t) (hmended : s.Mended r t t') :
    s.Traced jobs t' ∧ t'.reasons = t.reasons := by
  obtain ⟨hrun, -⟩ := hmended
  induction hrun with
  | refl => exact ⟨h, rfl⟩
  | tail _ hlast ih =>
    obtain ⟨htraced, hreasons⟩ := ih.1.repair hlast
    exact ⟨htraced, hreasons.trans ih.2⟩

theorem Traced.choose (h : s.Traced jobs t) (hid : id ∈ s.pool.considered)
    (hchosen : s.Chosen r (some .user) id t t') :
    s.Traced jobs t' ∧ t'.reasons = t.reasons.insert id .user := by
  obtain ⟨t₁, hadd, hmended⟩ := hchosen
  -- the wish is recorded before the package comes in, so its origin is known when it does
  have hpinned : s.Traced jobs (pin (some .user) t id) := by
    refine ⟨h.considered, ?_, ?_⟩
    · intro x reason hx
      simp only [pin, Reasons.get?_insert] at hx
      split at hx
      · cases hx
        rfl
      · exact h.recorded x reason hx
    · intro x hx
      simp only [pin, Reasons.get?_insert]
      split
      · exact .inr (.inl rfl)
      · exact h.origin x hx
  have hrecorded : (pin (some .user) t id).reasons.get? id = some .user := by simp [pin]
  obtain ⟨hadded, hreasons⟩ := hpinned.add hadd hid (.inl hrecorded)
  obtain ⟨hdone, hsame⟩ := hadded.mend hmended
  exact ⟨hdone, hsame.trans hreasons⟩

theorem Traced.replace (h : s.Traced jobs t) (hid : id ∈ s.pool.considered)
    (hcame : s.ComesAlong jobs id) (hchosen : s.Chosen r none id t t') :
    s.Traced jobs t' ∧ t'.reasons = t.reasons := by
  obtain ⟨t₁, hadd, hmended⟩ := hchosen
  have hpinned : s.Traced jobs (pin none t id) := h.leave (fun _ hx => hx) rfl
  obtain ⟨hadded, hreasons⟩ := hpinned.add hadd hid (.inr hcame)
  obtain ⟨hdone, hsame⟩ := hadded.mend hmended
  exact ⟨hdone, hsame.trans hreasons⟩

theorem Traced.move (h : s.Traced jobs t) (hjob : job ∈ jobs) (hkind : job.kind ≠ .reasonChange)
    (hmove : s.Move r job t t') : s.Traced jobs t' ∧
      ∀ x, t.reasons.get? x = some .user → t'.reasons.get? x = some .user := by
  have hunchanged : s.Traced jobs t' ∧ t'.reasons = t.reasons → s.Traced jobs t' ∧
      ∀ x, t.reasons.get? x = some .user → t'.reasons.get? x = some .user := by
    intro hdone
    refine ⟨hdone.1, ?_⟩
    rw [hdone.2]
    exact fun _ hx => hx
  cases hmove with
  | pin => exact hunchanged ⟨h.leave (fun _ hx => hx) rfl, rfl⟩
  | install _ hid _ _ hchosen =>
    obtain ⟨hdone, hreasons⟩ := h.choose (mem_considered_of_mem_candidates hid) hchosen
    refine ⟨hdone, ?_⟩
    intro x hx
    rw [hreasons, Reasons.get?_insert]
    split
    · rfl
    · exact hx
  | replace hold _ hid hchosen =>
    exact hunchanged (h.replace (mem_considered_of_mem_successors hid)
      (.successor hjob (supplants_of_mem_successors hold hid)) hchosen)
  | erase _ _ hmended =>
    have hbare : s.Traced jobs (t.without (s.targets job t)) :=
      h.leave (fun x hx => ((IdSet.mem_foldl_erase _ _ x).mp hx).1) rfl
    exact hunchanged (hbare.mend hmended)
  | clean => exact hunchanged ⟨h.leave (fun x hx => (IdSet.mem_erase.mp hx).1) rfl, rfl⟩
  | mark hmark => exact absurd hmark hkind

theorem Traced.run (h : s.Traced jobs t) (hkinds : ∀ job ∈ jobs, job.kind ≠ .reasonChange)
    (hrun : ReflTransGen (s.JobMove call jobs) t t') : s.Traced jobs t' ∧
      ∀ x, t.reasons.get? x = some .user → t'.reasons.get? x = some .user := by
  induction hrun with
  | refl => exact ⟨h, fun _ hx => hx⟩
  | tail _ hlast ih =>
    obtain ⟨job, hjob, hmove⟩ := hlast
    obtain ⟨hdone, hkept⟩ := ih.1.move hjob (hkinds job hjob) hmove
    exact ⟨hdone, fun x hx => hkept x (ih.2 x hx)⟩

theorem Traced.install (h : s.Traced jobs t) (hr : r.eraseDependents = false)
    (hkind : job.kind = .install) {left : Nat}
    (hinstall : (s.install r job t left).result = .ok t') :
    ∃ c ∈ s.candidates job, c ∈ t'.pinned ∧
      (c ∈ t.present ∨ t'.reasons.get? c = some .user) := by
  cases install_eq_ok hkind hinstall with
  | pin _ hid hpresent => exact ⟨_, hid, IdSet.mem_insert.mpr (.inr rfl), .inl hpresent⟩
  | install _ hid habsent _ hchosen =>
    obtain ⟨-, hreasons⟩ := h.choose (mem_considered_of_mem_candidates hid) hchosen
    refine ⟨_, hid, (hchosen.steps hr (.chosen hkind hid habsent)).2, .inr ?_⟩
    rw [hreasons, Reasons.get?_insert, if_pos rfl]
  | replace _ _ hid => simp only [successors, hkind, List.not_mem_nil] at hid
  | erase hother | clean hother | mark hother => exact absurd (hkind.symm.trans hother) (by decide)

variable (s) in
/-- The reason of a package that comes along: that of the installed build which it follows. -/
def inheritedReason (x : PackageId) : Reason :=
  match s.initial.toList.find? fun old => s.sameFamily old x with
  | some old => (s.get old).reason
  | none => .dependency

/-- A new package has the reason that is recorded for it; if there is none, it inherits one, or
the user's wish to have the build that it follows. -/
theorem Traced.newReason (h : s.Traced jobs t) :
    s.newReason t x = .user ∨ s.newReason t x = s.inheritedReason x := by
  rw [Search.newReason, inheritedReason]
  split
  · rename_i reason hrecorded
    exact .inl (h.recorded x reason hrecorded)
  · cases s.initial.toList.find? fun old => s.sameFamily old x with
    | none => exact .inr rfl
    | some old =>
      cases hrecorded : t.reasons.get? old with
      | none => exact .inr (by simp [hrecorded])
      | some reason => exact .inl (by simp [hrecorded, h.recorded old reason hrecorded])

theorem newReason_of_recorded {reason : Reason} (h : t.reasons.get? x = some reason) :
    s.newReason t x = reason := by
  rw [newReason, h]

theorem decisions_reason (hpresent : x ∈ t.present) (hnew : x ∉ s.initial) :
    (s.decisions t).reasons.get? x = some (s.newReason t x) := by
  apply Reasons.get?_foldl_insert
  · left
    apply List.mem_append_left
    exact List.mem_map.mpr ⟨x, IdSet.mem_toList.mpr (IdSet.mem_diff.mpr ⟨hpresent, hnew⟩), rfl⟩
  · intro reason hmem
    rcases List.mem_append.mp hmem with hmem | hmem
    · obtain ⟨_, -, heq⟩ := List.mem_map.mp hmem
      cases heq
      rfl
    · obtain ⟨id, hkept, hreason⟩ := List.mem_filterMap.mp hmem
      obtain ⟨_, -, heq⟩ := Option.map_eq_some_iff.mp hreason
      cases heq
      exact absurd (IdSet.mem_inter.mp (IdSet.mem_toList.mp hkept)).2 hnew

end Search

namespace Solver

variable {solver : Solver} {u : Universe} {jobs : List Job} {call : Demands} {d : Decisions}
  {job : Job} {n : Nat}

theorem HasTurn.succeeds (h : solver.HasTurn u jobs n job) (hmandatory : job.optional = false)
    (hsolve : (solver.solve u jobs call).outcome = .ok d) :
    ((solver.search u jobs).turn call (solver.trialAt u jobs call n) job).result =
      .ok ((solver.search u jobs).after call (solver.trialAt u jobs call n) job) := by
  have hnone : solver.problemsAt u jobs call jobs.length = [] := by
    rw [← solve_problems, Solution.problems, hsolve]
  rw [h.problemsAt_length, List.append_eq_nil_iff, List.append_eq_nil_iff] at hnone
  obtain ⟨-, hfaults, -⟩ := hnone
  cases hresult : ((solver.search u jobs).turn call (solver.trialAt u jobs call n) job).result with
  | ok t => rw [Search.after, hresult]
  | error e =>
    rw [Search.faults_of_error hresult, if_neg (by simp [hmandatory])] at hfaults
    cases hfaults

theorem eq_decisions_of_solved (h : (solver.solve u jobs call).outcome = .ok d) :
    d = (solver.search u jobs).decisions (solver.trialAt u jobs call jobs.length) := by
  rw [solve_outcome] at h
  split at h
  · cases h
    rfl
  · cases h

/-- What a job has pinned is there in the end. -/
theorem HasTurn.mem_of_pinned (h : solver.HasTurn u jobs n job)
    (hproblems : ((solver.search u jobs).precheck jobs).problems = []) {c : PackageId}
    (hc : c ∈ ((solver.search u jobs).after call (solver.trialAt u jobs call n) job).pinned) :
    c ∈ (solver.trialAt u jobs call jobs.length).present := by
  have hmoves := solver.trialAt_moves u jobs call jobs.length
  rw [List.take_length] at hmoves
  have hcoherent := (run_of_moves hproblems hmoves).coherent Search.coherent_initial
  exact hcoherent.pinned c ((run_of_moves hproblems h.later_moves).keeps.pinned c hc)

theorem traced_trialAt (call : Demands) (n : Nat)
    (hkinds : ∀ job ∈ jobs, job.kind ≠ .reasonChange) :
    (solver.search u jobs).Traced (jobs.take n) (solver.trialAt u jobs call n) := by
  have hsubset : Search.runnable (jobs.take n) (solver.skipped u jobs) ⊆ jobs.take n :=
    fun _ hmem => Search.mem_of_mem_runnable hmem
  have hmoves := ReflTransGen.mono (Search.jobMove_mono hsubset) _ _
    (solver.trialAt_moves u jobs call n)
  have hkinds' : ∀ job ∈ jobs.take n, job.kind ≠ .reasonChange :=
    fun job hjob => hkinds job (List.mem_of_mem_take hjob)
  exact (Search.traced_initial.run hkinds' hmoves).1

theorem HasTurn.traced (h : solver.HasTurn u jobs n job) (call : Demands)
    (hkinds : ∀ job ∈ jobs, job.kind ≠ .reasonChange) :
    (solver.search u jobs).Traced jobs (solver.trialAt u jobs call jobs.length) ∧
    ∀ x, (solver.trialAt u jobs call n).reasons.get? x = some .user ∨
        ((solver.search u jobs).after call (solver.trialAt u jobs call n) job).reasons.get? x =
          some .user →
      (solver.trialAt u jobs call jobs.length).reasons.get? x = some .user := by
  have hbefore : (solver.search u jobs).Traced jobs (solver.trialAt u jobs call n) :=
    (traced_trialAt call n hkinds).mono (List.take_subset n jobs)
  have hjob : (solver.search u jobs).Move (Rules.ofJob job call) job ≤
      (solver.search u jobs).JobMove call jobs :=
    fun _ _ hmove => ⟨job, List.mem_of_getElem? h.place, hmove⟩
  obtain ⟨hafter, hown⟩ := hbefore.run hkinds
    (ReflTransGen.mono hjob _ _ ((solver.search u jobs).after_moves call _ job))
  have hsubset : Search.runnable jobs (solver.skipped u jobs) ⊆ jobs :=
    fun _ hmem => Search.mem_of_mem_runnable hmem
  obtain ⟨hlast, hlater⟩ := hafter.run hkinds
    (ReflTransGen.mono (Search.jobMove_mono hsubset) _ _ h.later_moves)
  exact ⟨hlast, fun x hx => hlater x (hx.elim (hown x) id)⟩

/-- The system has a candidate of every install that may not fail, and it was installed or is
recorded as the user's wish, unless the install found it there after it came along with others. -/
theorem solve_records_wishes (hkinds : ∀ job ∈ jobs, job.kind ≠ .reasonChange)
    (h : (solver.solve u jobs call).outcome = .ok d) (hjob : jobs[n]? = some job)
    (hkind : job.kind = .install) (hmandatory : job.optional = false) :
    ∃ c ∈ (solver.search u jobs).candidates job, c ∈ d.system u ∧
      (c ∈ u.installed ∨ d.reasons.get? c = some .user ∨
        c ∈ (solver.trialAt u jobs call n).present ∧
          (solver.search u jobs).ComesAlong (jobs.take n) c ∧
          d.reasons.get? c = some ((solver.search u jobs).inheritedReason c)) := by
  have hproblems := (solve_eq_ok h).1
  have hturn : solver.HasTurn u jobs n job :=
    ⟨hjob, by rw [hkind]; decide, notMem_skipped hproblems hjob hmandatory⟩
  have hbefore : (solver.search u jobs).Traced (jobs.take n) (solver.trialAt u jobs call n) :=
    traced_trialAt call n hkinds
  obtain ⟨hlast, hkept⟩ := hturn.traced call hkinds
  have hresult := hturn.succeeds hmandatory h
  rw [Search.turn, Search.carryOut, hkind] at hresult
  obtain ⟨c, hc, hpinned, hfound⟩ := hbefore.install (by rfl) hkind hresult
  have hpresent := hturn.mem_of_pinned hproblems hpinned
  have hsystem : d.system u = (solver.trialAt u jobs call jobs.length).present := by
    rw [eq_decisions_of_solved h]
    exact (solver.search u jobs).decisions_system _
  refine ⟨c, hc, by rwa [hsystem], ?_⟩
  rw [eq_decisions_of_solved h]
  by_cases hinitial : c ∈ (solver.search u jobs).initial
  · exact .inl (Search.mem_initial.mp hinitial)
  · right
    rw [Search.decisions_reason hpresent hinitial]
    rcases hfound with hthere | hchosen
    · rcases hbefore.origin c hthere with hold | hrecorded | hcame
      · exact absurd hold hinitial
      · exact .inl (congrArg some (Search.newReason_of_recorded (hkept c (.inl hrecorded))))
      · rcases hlast.newReason with huser | hinherited
        · exact .inl (congrArg some huser)
        · exact .inr ⟨hthere, hcame, congrArg some hinherited⟩
    · exact .inl (congrArg some (Search.newReason_of_recorded (hkept c (.inr hchosen))))

def appAndLibrary : Universe :=
  .sample [] [.noarch "app" "1" [("requires", "lib")], .noarch "lib" "1"] (by decide +kernel)

def installApp : Job := { kind := .install, spec := "app", target := .packages (.ofIds 1 2 [0]) }

def installLibrary : Job :=
  { kind := .install, spec := "lib", target := .packages (.ofIds 1 2 [1]) }

def bothInstalled (library : Reason) : Decisions where
  install := [0, 1]
  order := [(1, 0)]
  reasons := .ofList [(0, .user), (1, library)]

/-- When it comes first, the library is recorded as the user's wish. -/
theorem libraryFirst_recorded :
    ((Solver.mk [] [] 9 none).solve appAndLibrary [installLibrary, installApp] {}).outcome =
      .ok (bothInstalled .user) ∧
    ∃ c ∈ ((Solver.mk [] [] 9 none).search appAndLibrary
        [installLibrary, installApp]).candidates installLibrary,
      c ∈ (bothInstalled .user).system appAndLibrary ∧
      (bothInstalled .user).reasons.get? c = some .user := by
  have hsolve : ((Solver.mk [] [] 9 none).solve appAndLibrary [installLibrary, installApp]
      {}).outcome = .ok (bothInstalled .user) := eq_ok_of_toOption (by decide +kernel)
  have hcandidates : ((Solver.mk [] [] 9 none).search appAndLibrary
      [installLibrary, installApp]).candidates installLibrary = [1] := by decide +kernel
  obtain ⟨c, hc, hsystem, hrecorded⟩ := solve_records_wishes (n := 0) (by decide) hsolve rfl rfl rfl
  rw [hcandidates] at hc ⊢
  cases List.mem_singleton.mp hc
  have havailable : 1 ∉ appAndLibrary.installed := by decide +kernel
  have habsent : 1 ∉ ((Solver.mk [] [] 9 none).trialAt appAndLibrary
      [installLibrary, installApp] {} 0).present := by decide +kernel
  refine ⟨hsolve, 1, hc, hsystem, ?_⟩
  exact (hrecorded.resolve_left havailable).resolve_right fun hfound => habsent hfound.1

/-- When the application comes first, the library is not, although the user asks for it. -/
theorem libraryLast_unrecorded :
    ((Solver.mk [] [] 9 none).solve appAndLibrary [installApp, installLibrary] {}).outcome =
      .ok (bothInstalled .dependency) ∧
    ¬ ∃ c ∈ ((Solver.mk [] [] 9 none).search appAndLibrary
        [installApp, installLibrary]).candidates installLibrary,
      c ∈ (bothInstalled .dependency).system appAndLibrary ∧
        (c ∈ appAndLibrary.installed ∨
          (bothInstalled .dependency).reasons.get? c = some .user) :=
  ⟨eq_ok_of_toOption (by decide +kernel), by decide +kernel⟩

end Solver

end Depsolve
