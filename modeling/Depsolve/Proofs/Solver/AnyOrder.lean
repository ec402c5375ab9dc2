import Depsolve.Proofs.Solver.Erasure
import Depsolve.Proofs.Solver.Turn
import Depsolve.Proofs.Universe.Sample
/-!
# Erases in any order

What several erases leave together is described without an order: it is the largest set of
installed packages that can do without all that they ask for. The order matters to one thing
only. An erase that finds its packages gone already, because another one came first, fails.
-/
namespace Depsolve

namespace Search

variable {s : Search} {call : Demands} {job : Job} {jobs done : List Job} {t : Trial}
  {p : PackageId} {x : Problem}

variable (s) in
def Asked (jobs : List Job) (p : PackageId) : Prop := ∃ job ∈ jobs, p ∈ s.candidates job

variable (s) in
/-- Nothing of what the job is about can be kept without what other jobs ask for. -/
def Spent (others : List Job) (job : Job) : Prop :=
  ∀ p ∈ s.candidates job, ¬ s.pool.Outlasts (s.Asked others) p

variable (s) in
def tooLate (job : Job) : Problem :=
  (Failure.notApplicable .noneInstalled).problem s.pool job s.solver.maxSteps

variable (s call) in
/-- Every job erases something that is installed and does not clean up, nothing is protected, and
the budget is no smaller than the number of installed packages. -/
structure Erases (jobs : List Job) : Prop where
  kind : ∀ job ∈ jobs, job.kind = .erase
  matched : ∀ job ∈ jobs, ∃ p ∈ s.candidates job, p ∈ s.initial
  keeps : ∀ job ∈ jobs, (Rules.ofJob job call).cleanDeps = false
  unguarded : s.guarded = ∅
  budget : s.initial.size ≤ s.solver.maxSteps

theorem Erases.subset {jobs' : List Job} (h : s.Erases call jobs)
    (hsubset : ∀ job ∈ jobs', job ∈ jobs) : s.Erases call jobs' where
  kind job hjob := h.kind job (hsubset job hjob)
  matched job hjob := h.matched job (hsubset job hjob)
  keeps job hjob := h.keeps job (hsubset job hjob)
  unguarded := h.unguarded
  budget := h.budget

theorem Erases.turn_eq (h : s.Erases call jobs) (hjob : job ∈ jobs) :
    s.turn call t job = s.erase (Rules.ofJob job call) job t s.solver.maxSteps := by
  rw [turn, carryOut, h.kind job hjob]

theorem asked_append (job : Job) :
    s.Asked (done ++ [job]) = fun p => s.Asked done p ∨ p ∈ s.candidates job := by
  funext p
  simp [Asked, or_and_right, exists_or]

theorem Spent.mono {others others' : List Job} (h : s.Spent others job)
    (hmore : ∀ other ∈ others, other ∈ others') : s.Spent others' job := by
  intro p hp houtlasts
  refine h p hp (houtlasts.mono ?_)
  rintro q ⟨other, hother, hq⟩
  exact ⟨other, hmore other hother, hq⟩

/-- An erase in a trial that holds what the jobs before it have left. -/
theorem Erases.after (h : s.Erases call jobs) (hjob : job ∈ jobs) (hpinned : t.pinned = ∅)
    (ht : s.pool.Remains (s.Asked done) t.present) :
    Pared t (s.after call t job) ∧
      s.pool.Remains (s.Asked (done ++ [job])) (s.after call t job).present ∧
      ∀ x, x ∈ s.faults call t job ↔
        job.optional = false ∧ s.Spent done job ∧ x = s.tooLate job := by
  have hturn := h.turn_eq (t := t) hjob
  rw [asked_append]
  by_cases hspent : s.Spent done job
  · have hresult : (s.turn call t job).result = .error (.notApplicable .noneInstalled) :=
      hturn ▸ erase_of_spent ht hspent
    rw [after_of_error hresult, faults_of_error hresult]
    refine ⟨.refl _, ⟨ht.stands, ?_, ?_⟩, fun x => ?_⟩
    · rintro p hp (hgone | hcandidate)
      · exact ht.apart p hp hgone
      · exact hspent p hcandidate (ht.mem_iff.mp hp)
    · intro other hstands hapart
      exact ht.largest other hstands fun p hp hgone => hapart p hp (.inl hgone)
    · cases job.optional <;> simp [hspent, tooLate]
  · obtain ⟨t', hresult, hpared, hremains⟩ :=
      erase_remains h.unguarded hpinned (h.keeps job hjob) h.budget ht hspent
    have hafter : s.after call t job = t' := by rw [Search.after, hturn, hresult]
    have hfaults : s.faults call t job = [] := by rw [faults, hturn, hresult]
    rw [hafter, hfaults]
    refine ⟨hpared, hremains, fun x => ?_⟩
    simp [hspent]

theorem Erases.foldl_after (h : s.Erases call jobs) (hpinned : t.pinned = ∅)
    (ht : s.pool.Remains (s.Asked done) t.present) :
    Pared t (jobs.foldl (s.after call) t) ∧
      s.pool.Remains (s.Asked (done ++ jobs)) (jobs.foldl (s.after call) t).present := by
  induction jobs generalizing done t with
  | nil =>
    rw [List.append_nil]
    exact ⟨.refl _, ht⟩
  | cons job jobs ih =>
    obtain ⟨hpared, hremains, -⟩ := h.after List.mem_cons_self hpinned ht
    obtain ⟨hrest, hfinal⟩ := ih (h.subset fun _ => List.mem_cons_of_mem job)
      (hpared.pinned.trans hpinned) hremains
    rw [List.append_assoc, List.singleton_append] at hfinal
    exact ⟨hpared.trans hrest, hfinal⟩

theorem Erases.mem_faultsOf (h : s.Erases call jobs) (hpinned : t.pinned = ∅)
    (ht : s.pool.Remains (s.Asked done) t.present) :
    x ∈ s.faultsOf call t jobs ↔ ∃ before job later, jobs = before ++ job :: later ∧
      job.optional = false ∧ s.Spent (done ++ before) job ∧ x = s.tooLate job := by
  induction jobs generalizing done t with
  | nil => simp [faultsOf]
  | cons job jobs ih =>
    obtain ⟨hpared, hremains, hfaults⟩ := h.after List.mem_cons_self hpinned ht
    have hrest := ih (h.subset fun _ => List.mem_cons_of_mem job)
      (hpared.pinned.trans hpinned) hremains
    rw [faultsOf, List.mem_append, hfaults, hrest]
    constructor
    · rintro (hnow | ⟨before, other, later, rfl, hlater⟩)
      · exact ⟨[], job, jobs, rfl, by rwa [List.append_nil]⟩
      · exact ⟨job :: before, other, later, rfl, by rwa [List.append_cons]⟩
    · rintro ⟨before, other, later, hjobs, hother⟩
      cases before with
      | nil =>
        cases hjobs
        exact .inl (by rwa [List.append_nil] at hother)
      | cons first before =>
        cases hjobs
        exact .inr ⟨before, other, later, rfl, by rwa [List.append_cons] at hother⟩

theorem foldl_eq_self {α β : Type} {f : β → α → β} {b : β} {l : List α}
    (h : ∀ a ∈ l, f b a = b) : l.foldl f b = b := by
  induction l with
  | nil => rfl
  | cons a l ih =>
    obtain ⟨hfirst, hrest⟩ := List.forall_mem_cons.mp h
    rw [List.foldl_cons, hfirst, ih hrest]

theorem Erases.precheck_eq (h : s.Erases call jobs) : s.precheck jobs = {} := by
  let numbered := jobs.zipIdx.map fun p => (p.2, p.1)
  have hmem : ∀ p ∈ numbered, p.2 ∈ jobs := by
    intro p hp
    obtain ⟨q, hq, rfl⟩ := List.mem_map.mp hp
    exact List.fst_mem_of_mem_zipIdx hq
  have hmatch : numbered.foldl (fun c p => s.checkMatch c p.1 p.2) {} = {} := by
    refine foldl_eq_self fun p hp => ?_
    obtain ⟨id, hid, -⟩ := h.matched p.2 (hmem p hp)
    have hsome : (s.candidates p.2).isEmpty = false :=
      List.isEmpty_eq_false_iff.mpr (List.ne_nil_of_mem hid)
    simp [checkMatch, hsome]
  have hcontradictions :
      numbered.foldl (fun c p => s.checkContradictions numbered c p.1 p.2) {} = {} := by
    refine foldl_eq_self fun p hp => ?_
    simp [checkContradictions, h.kind p.2 (hmem p hp), JobKind.installLike]
  have hguarded : numbered.foldl (fun c p => s.checkGuarded c p.1 p.2) {} = {} := by
    refine foldl_eq_self fun p hp => ?_
    have hnone : (s.candidates p.2).filter s.guarded.contains = [] := by
      rw [h.unguarded]
      exact List.filter_eq_nil_iff.mpr fun id _ => IdSet.not_mem_empty id
    simp [checkGuarded, hnone]
  rw [precheck, hmatch, hcontradictions, hguarded]

theorem Erases.runnable_eq (h : s.Erases call jobs) : runnable jobs ∅ = jobs := by
  have hall : jobs.zipIdx.filter (fun p => p.1.kind != .guard && !(∅ : IdSet).contains p.2) =
      jobs.zipIdx := by
    refine List.filter_eq_self.mpr fun p hp => ?_
    have hkind := h.kind p.1 (List.fst_mem_of_mem_zipIdx hp)
    have hfree : (∅ : IdSet).contains p.2 = false :=
      Bool.eq_false_iff.mpr (IdSet.not_mem_empty p.2)
    rw [hkind, hfree]
    rfl
  rw [runnable, hall, List.zipIdx_map_fst]

/-- Decisions do not depend on what is kept from coming back, or pinned. -/
theorem decisions_congr {t' : Trial} (hpresent : t'.present = t.present)
    (hobsoleted : t'.obsoleted = t.obsoleted) (hreasons : t'.reasons = t.reasons) :
    s.decisions t' = s.decisions t := by
  simp only [decisions, newReason, hpresent, hobsoleted, hreasons]

theorem remains_initial : s.pool.Remains (s.Asked []) s.initial := by
  have hnone : s.Asked [] = fun _ => False := by
    funext p
    simp [Asked]
  rw [hnone, s.initial_eq]
  exact Universe.remains_installed

theorem asked_perm {jobs' : List Job} (hperm : jobs'.Perm jobs) : s.Asked jobs' = s.Asked jobs := by
  funext p
  simp only [Asked, hperm.mem_iff]

theorem Erases.decisions_perm {jobs' : List Job} (h : s.Erases call jobs)
    (hperm : jobs'.Perm jobs) :
    s.decisions (jobs'.foldl (s.after call) { present := s.initial }) =
      s.decisions (jobs.foldl (s.after call) { present := s.initial }) := by
  obtain ⟨hpared, hremains⟩ := h.foldl_after (t := { present := s.initial }) rfl remains_initial
  obtain ⟨hpared', hremains'⟩ := (h.subset fun _ => hperm.mem_iff.mp).foldl_after
    (t := { present := s.initial }) rfl remains_initial
  rw [List.nil_append] at hremains hremains'
  rw [asked_perm hperm] at hremains'
  exact decisions_congr (hremains'.unique hremains)
    (hpared'.obsoleted.trans hpared.obsoleted.symm) (hpared'.reasons.trans hpared.reasons.symm)

theorem Erases.decisions_spec (h : s.Erases call jobs) :
    let d := s.decisions (jobs.foldl (s.after call) { present := s.initial })
    d.install = [] ∧ s.pool.Remains (s.Asked jobs) (d.system s.pool) := by
  obtain ⟨hpared, hremains⟩ := h.foldl_after (t := { present := s.initial }) rfl remains_initial
  intro d
  constructor
  · refine List.eq_nil_iff_forall_not_mem.mpr fun id hid => ?_
    obtain ⟨hpresent, hnew⟩ := IdSet.mem_diff.mp (IdSet.mem_toList.mp hid)
    exact hnew (hpared.subset id hpresent)
  · rw [decisions_system]
    exact hremains

end Search

namespace Solver

variable {solver : Solver} {u : Universe} {jobs jobs' : List Job} {call : Demands}

theorem solve_of_erases (h : (solver.search u jobs).Erases call jobs) :
    (solver.solve u jobs call).problems =
        (solver.search u jobs).faultsOf call { present := (solver.search u jobs).initial } jobs ∧
      solver.trialAt u jobs call jobs.length = jobs.foldl ((solver.search u jobs).after call)
        { present := (solver.search u jobs).initial } := by
  have hskipped : solver.skipped u jobs = ∅ := by
    rw [skipped, h.precheck_eq]
    rfl
  rw [solve_problems, problemsAt, trialAt, List.take_length, hskipped, h.runnable_eq,
    h.precheck_eq]
  exact ⟨rfl, rfl⟩

theorem search_eq_of_erases (h : (solver.search u jobs).Erases call jobs)
    (hperm : jobs'.Perm jobs) : solver.search u jobs' = solver.search u jobs := by
  have hnone : ∀ jobs' : List Job, (∀ job ∈ jobs', job ∈ jobs) → jobs'.flatMap guardsOf = [] := by
    intro jobs' hsubset
    refine List.flatMap_eq_nil_iff.mpr fun job hjob => guardsOf_eq_nil ?_
    rw [h.kind job (hsubset job hjob)]
    decide
  refine search_congr ?_
  rw [guardedPackages_eq, guardedPackages_eq, hnone jobs fun _ hjob => hjob,
    hnone jobs' fun _ hjob => hperm.mem_iff.mp hjob]

theorem outcome_of_erases (h : (solver.search u jobs).Erases call jobs) (hperm : jobs'.Perm jobs) :
    (solver.solve u jobs' call).outcome =
      if (solver.solve u jobs' call).problems.isEmpty then
        .ok ((solver.search u jobs).decisions (jobs.foldl ((solver.search u jobs).after call)
          { present := (solver.search u jobs).initial }))
      else .error (solver.solve u jobs' call).problems := by
  have hsearch := search_eq_of_erases h hperm
  have h' : (solver.search u jobs').Erases call jobs' :=
    hsearch ▸ h.subset fun _ => hperm.mem_iff.mp
  rw [solve_outcome, ← solve_problems, (solve_of_erases h').2, hsearch, h.decisions_perm hperm]

/-- The problems of erases in some order are those of the jobs that come too late in it. -/
theorem mem_problems_of_erases (h : (solver.search u jobs).Erases call jobs)
    (hperm : jobs'.Perm jobs) (x : Problem) :
    x ∈ (solver.solve u jobs' call).problems ↔
      ∃ before job later, jobs' = before ++ job :: later ∧ job.optional = false ∧
        (solver.search u jobs).Spent before job ∧ x = (solver.search u jobs).tooLate job := by
  have hsearch := search_eq_of_erases h hperm
  have h' : (solver.search u jobs').Erases call jobs' :=
    hsearch ▸ h.subset fun _ => hperm.mem_iff.mp
  rw [(solve_of_erases h').1, h'.mem_faultsOf rfl Search.remains_initial, hsearch]
  rfl

/-- Erases have the same result in every order, except that one that comes too late fails. All
of them together leave the largest set of installed packages that can do without what they ask
for. No order has a problem exactly if every erase that has to succeed is about a package that
would outlast the others. -/
theorem solve_erases_in_any_order (h : (solver.search u jobs).Erases call jobs) :
    ∃ d, d.install = [] ∧ u.Remains ((solver.search u jobs).Asked jobs) (d.system u) ∧
      (∀ jobs', jobs'.Perm jobs →
        (solver.solve u jobs' call).outcome =
          (if (solver.solve u jobs' call).problems.isEmpty then .ok d
          else .error (solver.solve u jobs' call).problems) ∧
        ∀ x, x ∈ (solver.solve u jobs' call).problems ↔
          ∃ before job later, jobs' = before ++ job :: later ∧ job.optional = false ∧
            (solver.search u jobs).Spent before job ∧ x = (solver.search u jobs).tooLate job) ∧
      ((∀ jobs', jobs'.Perm jobs → (solver.solve u jobs' call).outcome = .ok d) ↔
        ∀ before job later, jobs = before ++ job :: later → job.optional = false →
          ¬ (solver.search u jobs).Spent (before ++ later) job) := by
  obtain ⟨hinstall, hremains⟩ := h.decisions_spec
  refine ⟨_, hinstall, hremains, fun jobs' hperm =>
    ⟨outcome_of_erases h hperm, mem_problems_of_erases h hperm⟩, ?_, ?_⟩
  · intro hall before job later hjobs hmandatory hspent
    -- the job comes last
    have hperm : (before ++ (later ++ [job])).Perm jobs :=
      hjobs ▸ List.perm_append_comm.append_left before
    rw [← List.append_assoc] at hperm
    have hproblem := (mem_problems_of_erases h hperm _).mpr
      ⟨before ++ later, job, [], rfl, hmandatory, hspent, rfl⟩
    rw [Solution.problems, hall _ hperm] at hproblem
    cases hproblem
  · intro hkept jobs' hperm
    have hnone : (solver.solve u jobs' call).problems = [] := by
      refine List.eq_nil_iff_forall_not_mem.mpr fun x hx => ?_
      obtain ⟨before, job, later, rfl, hmandatory, hspent, -⟩ :=
        (mem_problems_of_erases h hperm x).mp hx
      -- the jobs other than this one are the same in the given order
      have hjob : job ∈ jobs := hperm.mem_iff.mp (by simp)
      obtain ⟨before', later', hjobs⟩ := List.append_of_mem hjob
      have hothers : (before ++ later).Perm (before' ++ later') := by
        have hmiddle := List.perm_middle.symm.trans (hperm.trans (hjobs ▸ List.perm_middle))
        exact hmiddle.cons_inv
      refine hkept before' job later' hjobs hmandatory (hspent.mono fun other hother => ?_)
      exact hothers.mem_iff.mp (List.mem_append_left later hother)
    rw [outcome_of_erases h hperm, hnone]
    rfl

/-- Two editors, a suite that needs one of them, and the manual of the suite. -/
def editors : Universe :=
  .sample
    [.noarch "vi" "1" [("provides", "editor")], .noarch "nano" "1" [("provides", "editor")],
      .noarch "suite" "1" [("requires", "editor")], .noarch "manual" "1" [("requires", "suite")]]
    [] (by decide +kernel)

def eraseVi : Job := { kind := .erase, spec := "vi", target := .packages (.ofIds 1 4 [0]) }

def eraseNano : Job := { kind := .erase, spec := "nano", target := .packages (.ofIds 1 4 [1]) }

def editorsGone : Decisions where
  erase := [0, 1, 2, 3]

/-- Whichever editor goes last takes the suite and its manual along. -/
theorem editorsGone_in_any_order :
    ((Solver.mk [] [] 5 none).search editors [eraseVi, eraseNano]).Erases {}
      [eraseVi, eraseNano] ∧
    ((Solver.mk [] [] 5 none).solve editors [eraseVi, eraseNano] {}).outcome = .ok editorsGone ∧
    ((Solver.mk [] [] 5 none).solve editors [eraseNano, eraseVi] {}).outcome = .ok editorsGone ∧
    editors.Remains (((Solver.mk [] [] 5 none).search editors [eraseVi, eraseNano]).Asked
      [eraseVi, eraseNano]) (editorsGone.system editors) := by
  have herases : ((Solver.mk [] [] 5 none).search editors [eraseVi, eraseNano]).Erases {}
      [eraseVi, eraseNano] :=
    ⟨by decide, by decide +kernel, by decide, by decide +kernel, by decide +kernel⟩
  have hfirst : ((Solver.mk [] [] 5 none).solve editors [eraseVi, eraseNano] {}).outcome =
      .ok editorsGone := eq_ok_of_toOption (by decide +kernel)
  have hproblems : ((Solver.mk [] [] 5 none).solve editors [eraseNano, eraseVi] {}).problems =
      [] := by decide +kernel
  obtain ⟨d, -, hremains, horder, -⟩ := solve_erases_in_any_order herases
  have hd := (horder _ (.refl _)).1
  rw [Solution.problems, hfirst] at hd
  cases hd
  have hsecond := (horder [eraseNano, eraseVi] (.swap ..)).1
  rw [hproblems] at hsecond
  exact ⟨herases, hfirst, hsecond, hremains⟩

def libraryAndUser : Universe :=
  .sample [.noarch "lib" "1", .noarch "app" "1" [("requires", "lib")]] [] (by decide +kernel)

def eraseLibrary : Job := { kind := .erase, spec := "lib", target := .packages (.ofIds 1 2 [0]) }

def eraseUser : Job := { kind := .erase, spec := "app", target := .packages (.ofIds 1 2 [1]) }

/-- The library takes the application along, so that there is none left to erase. The other way
round both go. -/
theorem eraseUser_tooLate :
    ((Solver.mk [] [] 3 none).search libraryAndUser [eraseUser, eraseLibrary]).Erases {}
      [eraseUser, eraseLibrary] ∧
    [eraseLibrary, eraseUser].Perm [eraseUser, eraseLibrary] ∧
    ((Solver.mk [] [] 3 none).solve libraryAndUser [eraseUser, eraseLibrary] {}).outcome =
      .ok { erase := [0, 1] } ∧
    ((Solver.mk [] [] 3 none).solve libraryAndUser [eraseLibrary, eraseUser] {}).outcome =
      .error [{
        kind := .notApplicable
        message := "cannot erase app: no matching package is installed" }] := by
  have herases : ((Solver.mk [] [] 3 none).search libraryAndUser [eraseUser, eraseLibrary]).Erases
      {} [eraseUser, eraseLibrary] :=
    ⟨by decide, by decide +kernel, by decide, by decide +kernel, by decide +kernel⟩
  have hok : ((Solver.mk [] [] 3 none).solve libraryAndUser [eraseUser, eraseLibrary] {}).outcome =
      .ok { erase := [0, 1] } := eq_ok_of_toOption (by decide +kernel)
  exact ⟨herases, .swap .., hok, Solution.outcome_eq_error (by decide +kernel)⟩

end Solver

end Depsolve
