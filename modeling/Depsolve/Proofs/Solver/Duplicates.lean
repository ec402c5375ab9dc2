import Depsolve.Proofs.Plan.Classification
import Depsolve.Proofs.Solver.Step
import Depsolve.Proofs.Universe.Sample
/-!
# One build installed twice

A package takes the place of every build of its family unless several of them may
be installed. Then nothing compares it with the builds that are there: it comes in
for whatever reason there is, and it may be a build that is installed already.
-/
namespace Depsolve

namespace Solver

/-- Why a package comes in that could be the same build as one that is there. -/
inductive ComesBeside (solver : Solver) (u : Universe) (jobs : List Job)
    (new there : PackageId) : Prop
  /-- A job asks for the new package and not for the other. -/
  | chosen {job : Job} (hjob : job ∈ jobs) (hkind : job.kind = .install)
      (hnew : new ∈ (solver.search u jobs).candidates job)
      (hthere : there ∉ (solver.search u jobs).candidates job)
  | successor {job : Job} (hjob : job ∈ jobs) (hnew : (solver.search u jobs).Supplants job new)
  /-- It provides something that the other does not. -/
  | provider {package : PackageId} {dep : Dependency} (hpackage : package ∈ u.considered)
      (hdep : dep ∈ (u.get package).requires) (hnew : new ∈ u.whatProvides dep)
      (hthere : there ∉ u.whatProvides dep)

/-- A package of which several builds may be installed comes in beside another. -/
structure Doubles (solver : Solver) (u : Universe) (jobs : List Job) (new there : PackageId) :
    Prop where
  several : solver.isInstallonly (u.get new) = true
  considered : new ∈ u.considered
  comes : solver.ComesBeside u jobs new there

end Solver

namespace Search

variable {solver : Solver} {u : Universe} {jobs : List Job} {r : Rules} {job : Job} {t t' : Trial}
  {new there : PackageId}

/-- A package is wanted for the sake of something that no present package stands for. -/
theorem Wanted.comesBeside (h : (solver.search u jobs).Wanted r job t new) (hjob : job ∈ jobs)
    (ht : (solver.search u jobs).Coherent t) (hthere : there ∈ t.present) :
    solver.ComesBeside u jobs new there := by
  cases h with
  | chosen hkind hid habsent =>
    exact .chosen hjob hkind hid fun hcandidate => habsent there hcandidate hthere
  | successor hold _ hid => exact .successor hjob (supplants_of_mem_successors hold hid)
  | provider hpackage hd hmissing hid =>
    exact .provider (ht.considered _ hpackage) hd (mem_providers.mp hid).1
      fun hprovides => hmissing there hprovides hthere

theorem isInstallonly_of_arrival {s : Search} (ht : s.Coherent t)
    (hthere : there ∈ (s.arrival t new).present) (hne : there ≠ new)
    (hname : (s.get there).name = (s.get new).name)
    (harch : (s.get there).arch = (s.get new).arch) :
    s.isInstallonly new = true ∧ there ∈ t.present := by
  obtain ⟨hpresent, hbuild, -⟩ := (mem_arrival.mp hthere).resolve_right hne
  refine ⟨Bool.not_eq_false _ ▸ fun hsingle => hbuild ?_, hpresent⟩
  have hfamily : (s.get new).sameArchFamily (s.get there) = true := by
    simp [Package.sameArchFamily, harch]
  exact mem_displacedBuilds.mpr ⟨hsingle, ht.lt_size hpresent, hname, hne, hpresent, hfamily⟩

theorem Step.doubles (h : (solver.search u jobs).Step r job t t') (hjob : job ∈ jobs)
    (ht : (solver.search u jobs).Coherent t) (hnew : new ∈ t'.present) (hthere : there ∈ t'.present)
    (hne : there ≠ new) (hname : (u.get there).name = (u.get new).name)
    (harch : (u.get there).arch = (u.get new).arch) :
    new ∈ t.present ∧ there ∈ t.present ∨ solver.Doubles u jobs new there ∨
      solver.Doubles u jobs there new := by
  rcases h.subset_or_arrival with hsub | ⟨id, hwanted, -, -, rfl⟩
  · exact .inl ⟨hsub new hnew, hsub there hthere⟩
  · have hconsidered := hwanted.mem_considered
    by_cases hid : new = id
    · subst hid
      obtain ⟨hseveral, hpresent⟩ := isInstallonly_of_arrival ht hthere hne hname harch
      exact .inr (.inl ⟨hseveral, hconsidered, hwanted.comesBeside hjob ht hpresent⟩)
    · have hnewPresent := ((mem_arrival.mp hnew).resolve_right hid).1
      by_cases hid' : there = id
      · subst hid'
        obtain ⟨hseveral, hpresent⟩ :=
          isInstallonly_of_arrival ht hnew hne.symm hname.symm harch.symm
        exact .inr (.inr ⟨hseveral, hconsidered, hwanted.comesBeside hjob ht hpresent⟩)
      · exact .inl ⟨hnewPresent, ((mem_arrival.mp hthere).resolve_right hid').1⟩

end Search

namespace Solver

variable {solver : Solver} {u : Universe} {jobs : List Job} {call : Demands} {d : Decisions}

/-- A plan that installs a build beside the same build that stays does so for a package of which
several builds may be installed, because one of the two came in while the other was there. -/
theorem doubles_of_install_sameNevra (h : (solver.solve u jobs call).outcome = .ok d)
    {op : Operation} (hop : op ∈ (Plan.materialize u d).operations) (hkind : op.kind = .install)
    {p : PackageId} (hp : p ∈ u.installed)
    (hkept : p ∉ Plan.leaving (Plan.materialize u d).operations)
    (hsame : (u.get p).sameNevra (u.get op.package) = true) :
    solver.Doubles u jobs op.package p ∨ solver.Doubles u jobs p op.package := by
  obtain ⟨hinstall, havailable⟩ :=
    Plan.mem_install_of_isInbound hop (by rw [hkind]; rfl)
  have hne : p ≠ op.package := fun heq => havailable (heq ▸ hp)
  simp only [Package.sameNevra, Bool.and_eq_true, beq_iff_eq] at hsame
  obtain ⟨t, hrun, hsystem, -⟩ := exists_run h
  -- the two are not present together unless one came in beside the other
  have hinvariant := hrun.preserves (P := fun t => op.package ∈ t.present ∧ p ∈ t.present →
      solver.Doubles u jobs op.package p ∨ solver.Doubles u jobs p op.package)
    Search.coherent_initial (fun hboth => absurd (PackageSet.mem_def.mpr hboth.1) havailable) ?_
  · refine hinvariant.2 ⟨?_, ?_⟩
    · exact hsystem ▸ Decisions.mem_system.mpr (.inr hinstall)
    · have hstays := Plan.notMem_erase_of_notMem_leaving hp hkept
      exact hsystem ▸ Decisions.mem_system.mpr (.inl ⟨hp, hstays⟩)
  · intro job hjob t t' ht hbefore hstep hboth
    have hdoubles := hstep.doubles (mem_of_mem_admitted hjob) ht hboth.1 hboth.2 hne hsame.1.1
      hsame.1.2
    rcases hdoubles with hpresent | hdoubles
    · exact hbefore hpresent
    · exact hdoubles

/-- A kernel, and the same build of it with the modules that a driver needs. -/
def kernelRebuilt : Universe :=
  .sample [.noarch "kernel" "1"]
    [.noarch "kernel" "1" [("provides", "kmod")], .noarch "driver" "1" [("requires", "kmod")]]
    (by decide +kernel)

def wantDriver : Job := { kind := .install, spec := "driver", target := .packages (.ofIds 1 3 [2]) }

def driverAndKernel : Decisions where
  install := [1, 2]
  order := [(1, 2)]
  reasons := .ofList [(1, .unknown), (2, .user)]

theorem driverAndKernel_doubles :
    (Solver.mk ["kernel"] [] 100 none).Doubles kernelRebuilt [wantDriver] 1 0 ∨
      (Solver.mk ["kernel"] [] 100 none).Doubles kernelRebuilt [wantDriver] 0 1 := by
  have hsolve : ((Solver.mk ["kernel"] [] 100 none).solve kernelRebuilt [wantDriver] {}).outcome =
      .ok driverAndKernel := eq_ok_of_toOption (by decide +kernel)
  have hop : (⟨.install, 1, none, .unknown⟩ : Operation) ∈
      (Plan.materialize kernelRebuilt driverAndKernel).operations := by decide +kernel
  exact doubles_of_install_sameNevra hsolve hop rfl (by decide +kernel) (by decide +kernel)
    (by decide +kernel)

def kernels : Universe :=
  .sample [.noarch "kernel" "1", .noarch "kernel" "2"] [.noarch "kernel" "2"] (by decide +kernel)

def upgradeKernels : List Job := [{ kind := .upgradeAll, spec := "*", target := .all }]

def kernelAgain : Decisions where
  install := [2]
  reasons := .ofList [(2, .unknown)]

theorem kernelAgain_duplicate :
    ((Solver.mk ["kernel"] [] 100 none).solve kernels upgradeKernels {}).outcome =
      .ok kernelAgain ∧
    (⟨.install, 2, none, .unknown⟩ : Operation) ∈
      (Plan.materialize kernels kernelAgain).operations ∧
    1 ∈ kernels.installed ∧ 1 ∉ Plan.leaving (Plan.materialize kernels kernelAgain).operations ∧
    (kernels.get 1).sameNevra (kernels.get 2) = true := by
  refine ⟨eq_ok_of_toOption (by decide +kernel), ?_⟩
  decide +kernel

end Solver

end Depsolve
