import Depsolve.Proofs.Solver.Step
import Depsolve.Proofs.Universe.Sample
/-!
# What an erase keeps away

An erase keeps the packages that it took off from coming back. The other packages
that it is about are not kept away: builds that were not installed, or that had
left before. This says which of them a solution can have, and why they come in.
-/
namespace Depsolve

open Relation

namespace Solver

/-- How an installed package leaves without being kept away. -/
inductive SlipsAway (solver : Solver) (u : Universe) (jobs : List Job) (call : Demands)
    (x : PackageId) : Prop
  | replaced {new : PackageId} (hnew : solver.TakesPlace u new x)
  | obsoleted {new : PackageId} (hnew : new ∈ u.considered)
      (hname : (u.get x).name ≠ (u.get new).name)
      (hobsoletes : (u.get new).obsoletesPackage (u.get x) = true)
  /-- An erase cleans up after itself. -/
  | cleaned {job : Job} (hjob : job ∈ jobs) (hkind : job.kind = .erase)
      (hclean : (Rules.ofJob job call).cleanDeps = true)

/-- Why a package comes in although a job erases packages of its name. -/
inductive ComesDespite (solver : Solver) (u : Universe) (jobs : List Job) (x : PackageId) : Prop
  | provider {package : PackageId} {dep : Dependency} (hpackage : package ∈ u.considered)
      (hdep : dep ∈ (u.get package).requires) (hx : x ∈ u.whatProvides dep)
  /-- A job for everything installed puts it there, or it obsoletes what a job is about. -/
  | successor {job : Job} (hjob : job ∈ jobs) (hx : (solver.search u jobs).Supplants job x)
      (hapart : job.kind.installLike = true → x ∉ (solver.search u jobs).candidates job)

end Solver

namespace Search

variable {solver : Solver} {u : Universe} {jobs : List Job} {call : Demands} {r : Rules}
  {job erase : Job} {t t' : Trial} {x : PackageId} {left : Nat}

theorem Wanted.comesDespite (h : (solver.search u jobs).Wanted r job t x) (hjob : job ∈ jobs)
    (ht : (solver.search u jobs).Coherent t)
    (hx : x ∈ (solver.search u jobs).candidates erase)
    (hapart : job.kind.installLike = true → (solver.search u jobs).Apart job erase) :
    solver.ComesDespite u jobs x := by
  have hnone : job.kind.installLike = true → x ∉ (solver.search u jobs).candidates job :=
    fun hlike hmem => hapart hlike x hmem x hx rfl
  cases h with
  | chosen hkind hid => exact absurd hid (hnone (by rw [hkind]; rfl))
  | successor hold _ hid => exact .successor hjob (supplants_of_mem_successors hold hid) hnone
  | provider hpackage hd _ hid =>
    exact .provider (ht.considered _ hpackage) hd (mem_providers.mp hid).1

theorem erase_forbids {s : Search} (hr : r.eraseDependents = false) (hkind : job.kind = .erase)
    (hguarded : ∀ id ∈ s.candidates job, id ∉ s.guarded)
    (h : (s.erase r job t left).result = .ok t') :
    (∃ id, id ∈ s.targets job t) ∧ ∀ id ∈ s.targets job t, id ∈ t'.forbidden := by
  obtain ⟨hsome, -, t₁, hmended, hrest⟩ := erase_spec hkind h
  refine ⟨hsome, fun id hid => ?_⟩
  have htaken : id ∈ (t.without (s.targets job t)).forbidden :=
    (IdSet.mem_foldl_insert _ _ id).mpr (.inr hid)
  have hmend : ReflTransGen (s.Step r job) _ t₁ := hmended.steps fun _ => hkind
  have hclean := steps_of_moves hr (fun _ => hguarded) hrest
  exact (keeps_of_run (fun _ _ hstep => hstep.keeps) (hmend.trans hclean)).forbidden id htaken

theorem Step.mem_or_slipsAway
    (h : (solver.search u jobs).Step (Rules.ofJob job call) job t t') (hjob : job ∈ jobs)
    (hx : x ∈ t.present) :
    x ∈ t'.present ∨ x ∈ t'.forbidden ∨ solver.SlipsAway u jobs call x := by
  rcases h.stays_or_leaves hx with
    hstays | ⟨hforbidden, -⟩ | ⟨hkind, hclean⟩ | ⟨new, hwanted, -, hbuild | hobsolete⟩
  · exact .inl hstays
  · exact .inr (.inl hforbidden)
  · exact .inr (.inr (.cleaned hjob hkind hclean))
  · exact .inr (.inr (.replaced (takesPlace_of_mem_displacedBuilds hwanted.mem_considered hbuild)))
  · obtain ⟨-, -, hname, hobsoletes⟩ := mem_displacedByObsoletes.mp hobsolete
    exact .inr (.inr (.obsoleted hwanted.mem_considered hname hobsoletes))

end Search

namespace Solver

variable {solver : Solver} {u : Universe} {jobs : List Job} {call : Demands} {d : Decisions}
  {t t' : Trial} {job : Job} {x : PackageId}

theorem Run.mem_or_slipsAway (h : solver.Run u jobs call { present := u.installed.members } t)
    (hx : x ∈ u.installed) :
    x ∈ t.present ∨ x ∈ t.forbidden ∨ solver.SlipsAway u jobs call x := by
  refine (h.preserves (P := fun t => x ∈ t.present ∨ x ∈ t.forbidden ∨
    solver.SlipsAway u jobs call x) Search.coherent_initial (.inl (PackageSet.mem_def.mp hx)) ?_).2
  rintro job hjob t t' - (hpresent | hforbidden | hslips) hstep
  · exact hstep.mem_or_slipsAway (mem_of_mem_admitted hjob) hpresent
  · exact .inr (.inl (hstep.keeps.forbidden x hforbidden))
  · exact .inr (.inr hslips)

/-- A package of an erase that is absent at some time and present at the end has a reason to
come in. -/
theorem Run.comesDespite (h : solver.Run u jobs call t t')
    (hproblems : ((solver.search u jobs).precheck jobs).problems = [])
    (ht : (solver.search u jobs).Coherent t) (hjob : job ∈ solver.admitted u jobs)
    (hkind : job.kind = .erase) (hx : x ∈ (solver.search u jobs).candidates job)
    (habsent : x ∉ t.present) (hpresent : x ∈ t'.present) : solver.ComesDespite u jobs x := by
  refine (h.preserves (P := fun t => x ∈ t.present → solver.ComesDespite u jobs x) ht
    (fun hmem => absurd hmem habsent) ?_).2 hpresent
  intro other hother t₁ t₂ ht₁ hbefore hstep hmem
  rcases hstep.subset_or_arrival with hsub | ⟨id, hwanted, -, -, rfl⟩
  · exact hbefore (hsub x hmem)
  · by_cases heq : x = id
    · subst heq
      exact hwanted.comesDespite (mem_of_mem_admitted hother) ht₁ hx fun hlike =>
        apart_of_mem_admitted hproblems hother hlike hjob hkind
    · exact hbefore ((Search.mem_arrival.mp hmem).resolve_right heq).1

/-- An erase that may not be passed over takes a package off. What else it is about is in the
solution only if it was not installed or slipped away, and if it comes in for another reason. -/
theorem solve_erases (h : (solver.solve u jobs call).outcome = .ok d) (hjob : job ∈ jobs)
    (hkind : job.kind = .erase)
    (hmade : job.optional = false ∨ ∃ r demands, Request.job u demands r = job) :
    (∃ x ∈ (solver.search u jobs).candidates job, x ∈ u.installed ∧ x ∉ d.system u) ∧
    ∀ x ∈ (solver.search u jobs).candidates job, x ∈ d.system u →
      (x ∉ u.installed ∨ solver.SlipsAway u jobs call x) ∧ solver.ComesDespite u jobs x := by
  have hmandatory := Job.optional_of_made (by rw [hkind]; decide) hmade
  have hproblems := (solve_eq_ok h).1
  have hadmitted := mem_admitted hproblems hjob (by rw [hkind]; decide) hmandatory
  obtain ⟨t, t', t'', left, hbefore, hok, hduring, hafter, hsystem⟩ :=
    exists_carryOut h hjob (by rw [hkind]; decide) hmandatory
  simp only [Search.carryOut, hkind] at hok
  have hguarded : ∀ id ∈ (solver.search u jobs).candidates job,
      id ∉ (solver.search u jobs).guarded :=
    fun id hid => Search.notMem_guarded_of_runnable hproblems hadmitted hkind hid
  obtain ⟨⟨id, hid⟩, hforbids⟩ := Search.erase_forbids (by rfl) hkind hguarded hok
  have ht := hbefore.coherent Search.coherent_initial
  have hfinal := (hduring.trans hafter).coherent ht
  -- what is kept away at some time is not there at the end
  have hkeptAway : ∀ x ∈ (solver.search u jobs).targets job t, x ∉ t''.present :=
    fun x hx => hfinal.forbidden x (hafter.keeps.forbidden x (hforbids x hx))
  rw [hsystem]
  constructor
  · obtain ⟨hcandidate, hinitial, -⟩ := Search.mem_targets.mp hid
    exact ⟨id, hcandidate, Search.mem_initial.mp hinitial, hkeptAway id hid⟩
  · intro x hx hpresent
    by_cases hinstalled : x ∈ u.installed
    · have habsent : x ∉ t.present := fun hmem =>
        hkeptAway x (Search.mem_targets.mpr ⟨hx, Search.mem_initial.mpr hinstalled, hmem⟩) hpresent
      have hfree : x ∉ t.forbidden := fun hforbidden =>
        hfinal.forbidden x ((hduring.trans hafter).keeps.forbidden x hforbidden) hpresent
      have hslips := ((hbefore.mem_or_slipsAway hinstalled).resolve_left habsent).resolve_left hfree
      have hcomes := (hduring.trans hafter).comesDespite hproblems ht hadmitted hkind hx habsent
        hpresent
      exact ⟨.inr hslips, hcomes⟩
    · have hcomes := ((hbefore.trans hduring).trans hafter).comesDespite hproblems
        Search.coherent_initial hadmitted hkind hx (mt PackageSet.mem_def.mpr hinstalled) hpresent
      exact ⟨.inl hinstalled, hcomes⟩

/-- A package with its documentation, and a newer build of the package. -/
def packageAndManual : Universe :=
  .sample [.noarch "foo" "1", .noarch "foo-doc" "1"] [.noarch "foo" "2"] (by decide +kernel)

def upgradeFirst : Job := { kind := .upgradeAll, spec := "*", target := .all }

def eraseFoos : Job :=
  { kind := .erase, spec := "foo*", target := .packages (.ofIds 1 3 [0, 1, 2]) }

/-- The upgrade comes first, and what it has brought in stays. -/
def manualErased : Decisions where
  install := [2]
  erase := [0, 1]
  reasons := .ofList [(2, .unknown)]

theorem manualErased_erases :
    (Solver.mk [] [] 100 none).ComesDespite packageAndManual [upgradeFirst, eraseFoos] 2 := by
  have hsolve : ((Solver.mk [] [] 100 none).solve packageAndManual [upgradeFirst, eraseFoos]
      {}).outcome = .ok manualErased := eq_ok_of_toOption (by decide +kernel)
  have hjob : eraseFoos ∈ [upgradeFirst, eraseFoos] := by simp
  exact ((solve_erases hsolve hjob rfl (.inl rfl)).2 2 (by decide +kernel) (by decide +kernel)).2

def neededPackage : Universe :=
  .sample [.noarch "foo" "1"] [.noarch "foo" "2", .noarch "bar" "1" [("requires", "foo")]]
    (by decide +kernel)

def eraseFoo : Job := { kind := .erase, spec := "foo", target := .packages (.ofIds 1 3 [0, 1]) }

def wantBar : Job := { kind := .install, spec := "bar", target := .packages (.ofIds 1 3 [2]) }

def fooReturns : Decisions where
  install := [1, 2]
  erase := [0]
  order := [(1, 2)]
  reasons := .ofList [(1, .unknown), (2, .user)]

/-- The other build comes in for the sake of the package that needs it. -/
theorem fooReturns_matched :
    ((Solver.mk [] [] 100 none).solve neededPackage [eraseFoo, wantBar] {}).outcome =
      .ok fooReturns ∧ eraseFoo.kind = .erase ∧
    1 ∈ ((Solver.mk [] [] 100 none).search neededPackage [eraseFoo, wantBar]).candidates eraseFoo ∧
    1 ∈ fooReturns.system neededPackage := by
  refine ⟨eq_ok_of_toOption (by decide +kernel), rfl, ?_⟩
  decide +kernel

end Solver

end Depsolve
