import Depsolve.Proofs.Solver.Descent
/-!
# One build of a family

A package that comes in displaces every other build of its family, unless several
builds of it may be installed. So two builds of a family are in a solution only if
both were installed before or one of them may stand beside others.
-/
namespace Depsolve

namespace Search

variable {s : Search} {r : Rules} {job : Job} {t t' : Trial}

variable (s) in
/-- Two builds that may be present together. -/
def Compatible (p q : PackageId) : Prop :=
  s.sameFamily p q = true → (p ∈ s.pool.installed ∧ q ∈ s.pool.installed) ∨
    s.isInstallonly p = true ∨ s.isInstallonly q = true

theorem sameFamily_comm (p q : PackageId) : s.sameFamily p q = s.sameFamily q p := by
  rw [sameFamily, sameFamily, Bool.beq_comm, Package.sameArchFamily_comm]

theorem Compatible.symm {p q : PackageId} (h : s.Compatible p q) : s.Compatible q p := by
  intro hfamily
  rw [sameFamily_comm] at hfamily
  rcases h hfamily with ⟨hp, hq⟩ | hp | hq
  · exact .inl ⟨hq, hp⟩
  · exact .inr (.inr hp)
  · exact .inr (.inl hq)

/-- What a newcomer leaves in place is compatible with it. -/
theorem compatible_of_notMem_displacedBuilds {new q : PackageId} (hq : q ∈ t.present)
    (hsize : q < s.pool.size) (hne : q ≠ new) (hkept : q ∉ s.displacedBuilds t new) :
    s.Compatible new q := by
  intro hfamily
  rw [sameFamily, Bool.and_eq_true, beq_iff_eq] at hfamily
  by_cases hseveral : s.isInstallonly new = true
  · exact .inr (.inl hseveral)
  · have hsingle : s.isInstallonly new = false := Bool.eq_false_iff.mpr hseveral
    have hgone : q ∈ s.displacedBuilds t new :=
      mem_displacedBuilds.mpr ⟨hsingle, hsize, hfamily.1.symm, hne, hq, hfamily.2⟩
    exact absurd hgone hkept

variable (s) in
def Assorted (t : Trial) : Prop :=
  ∀ p ∈ t.present, ∀ q ∈ t.present, p ≠ q → s.Compatible p q

theorem assorted_initial : s.Assorted { present := s.pool.installed.members } := by
  intro p hp q hq _ _
  exact .inl ⟨PackageSet.mem_def.mpr hp, PackageSet.mem_def.mpr hq⟩

theorem Step.assorted (h : s.Step r job t t') (ht : s.Coherent t) (hassorted : s.Assorted t) :
    s.Assorted t' := by
  rcases h.subset_or_arrival with hsub | ⟨new, -, -, -, rfl⟩
  · intro p hp q hq hne
    exact hassorted p (hsub p hp) q (hsub q hq) hne
  · -- a pair is old, or one of the two is the newcomer
    have hnew : ∀ q, q ∈ t.present → q ∉ s.displacedBuilds t new → q ≠ new →
        s.Compatible new q := by
      intro q hq hkept hne
      exact compatible_of_notMem_displacedBuilds hq (ht.lt_size hq) hne hkept
    intro p hp q hq hne
    rcases mem_arrival.mp hp with ⟨hpold, hpkept, -⟩ | rfl
    · rcases mem_arrival.mp hq with ⟨hqold, -⟩ | rfl
      · exact hassorted p hpold q hqold hne
      · exact (hnew p hpold hpkept hne).symm
    · rcases mem_arrival.mp hq with ⟨hqold, hqkept, -⟩ | rfl
      · exact hnew q hqold hqkept (Ne.symm hne)
      · exact absurd rfl hne

end Search

namespace Solver

variable {solver : Solver} {u : Universe} {jobs : List Job} {call : Demands} {d : Decisions}

/-- Of two builds of a family in a solution that were not both installed before, one at least may
be installed beside others. -/
theorem isInstallonly_of_sameFamily (h : (solver.solve u jobs call).outcome = .ok d)
    {p q : PackageId} (hp : p ∈ d.system u) (hq : q ∈ d.system u) (hne : p ≠ q)
    (hname : (u.get p).name = (u.get q).name)
    (hfamily : (u.get p).sameArchFamily (u.get q) = true)
    (hnew : ¬ (p ∈ u.installed ∧ q ∈ u.installed)) :
    solver.isInstallonly (u.get p) = true ∨ solver.isInstallonly (u.get q) = true := by
  obtain ⟨t, hrun, hsystem, -⟩ := exists_run h
  rw [hsystem] at hp hq
  have hassorted : (solver.search u jobs).Assorted t := by
    refine (hrun.preserves Search.coherent_initial Search.assorted_initial ?_).2
    intro job _ t₁ t₂ ht hassorted hstep
    exact hstep.assorted ht hassorted
  have hsame : (solver.search u jobs).sameFamily p q = true :=
    Bool.and_eq_true_iff.mpr ⟨beq_iff_eq.mpr hname, hfamily⟩
  exact (hassorted p hp q hq hne hsame).resolve_left hnew

/-- A kernel and a tool with newer builds, of which only the tool gives way. -/
def kernelAndTool : Universe :=
  .sample [.noarch "kernel" "1", .noarch "tool" "1"] [.noarch "kernel" "2", .noarch "tool" "2"]
    (by decide +kernel)

def bothUpgraded : Decisions where
  install := [2, 3]
  erase := [1]
  reasons := .ofList [(2, .unknown), (3, .unknown)]

/-- The kernels stay side by side because several may be installed. -/
theorem bothUpgraded_isInstallonly :
    ((Solver.mk ["kernel"] [] 100 none).solve kernelAndTool upgradeEverything {}).outcome =
      .ok bothUpgraded ∧
    ((Solver.mk ["kernel"] [] 100 none).isInstallonly (kernelAndTool.get 0) = true ∨
      (Solver.mk ["kernel"] [] 100 none).isInstallonly (kernelAndTool.get 2) = true) := by
  have hsolve : ((Solver.mk ["kernel"] [] 100 none).solve kernelAndTool upgradeEverything
      {}).outcome = .ok bothUpgraded := eq_ok_of_toOption (by decide +kernel)
  refine ⟨hsolve, isInstallonly_of_sameFamily hsolve (p := 0) (q := 2) ?_ ?_ ?_ ?_ ?_ ?_⟩ <;>
    decide +kernel

end Solver

end Depsolve
