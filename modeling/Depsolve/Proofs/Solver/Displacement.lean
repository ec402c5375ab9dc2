import Depsolve.Proofs.Solver.Step
import Depsolve.Proofs.Universe.Sample
/-!
# What takes the place of a package

Where no job erases and nothing may be erased, a package leaves only when another
one comes in and displaces it. The newcomer can be displaced in its turn, so what
stands for the package in the end is found along a chain of displacements.
-/
namespace Depsolve

open Relation

namespace Solver

/-- A new package displaces the builds of its family, unless several may be installed, and the
packages of other names that it obsoletes. -/
def Displaces (solver : Solver) (u : Universe) (new old : PackageId) : Prop :=
  (solver.isInstallonly (u.get new) = false ∧ (u.get new).name = (u.get old).name ∧
    (u.get new).sameArchFamily (u.get old) = true) ∨
  ∃ o ∈ (u.get new).obsoletes, o.name = (u.get old).name ∧ o.name ≠ (u.get new).name ∧
    o.matchesEvr (u.get old).evr = true

instance (solver : Solver) (u : Universe) (new old : PackageId) :
    Decidable (solver.Displaces u new old) := inferInstanceAs (Decidable (_ ∨ _))

end Solver

namespace Search

variable {s : Search} {r : Rules} {job : Job} {t t' : Trial} {id x : PackageId}

theorem displaces_of_mem_displacedBuilds (h : x ∈ s.displacedBuilds t id) :
    s.solver.Displaces s.pool id x := by
  obtain ⟨hsingle, -, hname, -, -, hfamily⟩ := mem_displacedBuilds.mp h
  exact .inl ⟨hsingle, hname.symm, hfamily⟩

theorem displaces_of_mem_displacedByObsoletes (h : x ∈ s.displacedByObsoletes t id) :
    s.solver.Displaces s.pool id x := by
  obtain ⟨-, -, hname, hobsoletes⟩ := mem_displacedByObsoletes.mp h
  obtain ⟨o, ho, hmatch⟩ := List.any_eq_true.mp hobsoletes
  rw [Bool.and_eq_true, beq_iff_eq] at hmatch
  refine .inr ⟨o, ho, hmatch.1, ?_, hmatch.2⟩
  rw [hmatch.1]
  exact hname

theorem Step.stays_or_displaced (h : s.Step r job t t') (hkind : job.kind ≠ .erase)
    (hkeep : r.allowErasing = false) (hx : x ∈ t.present) :
    x ∈ t'.present ∨ ∃ new ∈ t'.present, s.solver.Displaces s.pool new x := by
  rcases h.stays_or_leaves hx with
    hstays | ⟨-, hallowed⟩ | ⟨herase, -⟩ | ⟨new, -, rfl, hdisplaced⟩
  · exact .inl hstays
  · have herase := hallowed.resolve_left (by simp [hkeep])
    exact absurd herase hkind
  · exact absurd herase hkind
  · have hnew : new ∈ (s.arrival t new).present := mem_arrival.mpr (.inr rfl)
    rcases hdisplaced with hbuild | hobsolete
    · exact .inr ⟨new, hnew, displaces_of_mem_displacedBuilds hbuild⟩
    · exact .inr ⟨new, hnew, displaces_of_mem_displacedByObsoletes hobsolete⟩

variable (s) in
/-- The package itself is present, or a package that a chain of displacements leads to. -/
def Succeeded (t : Trial) (p : PackageId) : Prop :=
  ∃ q ∈ t.present, ReflTransGen (fun old new => s.solver.Displaces s.pool new old) p q

theorem Step.succeeded (h : s.Step r job t t') (hkind : job.kind ≠ .erase)
    (hkeep : r.allowErasing = false) (ht : s.Succeeded t x) : s.Succeeded t' x := by
  obtain ⟨q, hq, hchain⟩ := ht
  rcases h.stays_or_displaced hkind hkeep hq with hstays | ⟨new, hnew, hdisplaces⟩
  · exact ⟨q, hstays, hchain⟩
  · exact ⟨new, hnew, hchain.tail hdisplaces⟩

end Search

namespace Solver

variable {solver : Solver} {u : Universe} {jobs : List Job} {call : Demands} {d : Decisions}

theorem mem_installed_of_mem_erase (h : (solver.solve u jobs call).outcome = .ok d)
    {p : PackageId} (hp : p ∈ d.erase) : p ∈ u.installed := by
  obtain ⟨-, t, -, rfl⟩ := solve_eq_ok h
  have hgone := IdSet.mem_toList.mp hp
  exact Search.mem_initial.mp (IdSet.mem_diff.mp hgone).1

/-- Without permission to erase, whatever a solution takes off is succeeded by a package of the
solution that one or more displacements lead to. -/
theorem solve_displaces (h : (solver.solve u jobs call).outcome = .ok d)
    (hjobs : ∀ job ∈ jobs, job.kind ≠ .erase ∧ job.demands.allowErasing = false)
    (hcall : call.allowErasing = false) {p : PackageId} (hp : p ∈ d.erase) :
    ∃ q ∈ d.system u, q ≠ p ∧ TransGen (fun old new => solver.Displaces u new old) p q := by
  obtain ⟨t, hrun, hsystem, herase⟩ := exists_run h
  have hinstalled := mem_installed_of_mem_erase h hp
  have hsucceeded : (solver.search u jobs).Succeeded t p := by
    refine (hrun.preserves (P := fun t => (solver.search u jobs).Succeeded t p)
      Search.coherent_initial ⟨p, PackageSet.mem_def.mp hinstalled, .refl⟩ ?_).2
    intro job hjob t₁ t₂ _ ht hstep
    obtain ⟨hkind, hown⟩ := hjobs job (mem_of_mem_admitted hjob)
    have hkeep : (Rules.ofJob job call).allowErasing = false := by
      simp [Rules.ofJob, hown, hcall]
    exact hstep.succeeded hkind hkeep ht
  obtain ⟨q, hq, hchain⟩ := hsucceeded
  have hne : q ≠ p := by
    intro heq
    exact herase p hp (heq ▸ hq)
  rw [hsystem]
  refine ⟨q, hq, hne, ?_⟩
  exact (reflTransGen_iff_eq_or_transGen.mp hchain).resolve_left hne

/-- A library, its next build, and a package that obsoletes just that build. -/
def libraryAndHeir : Universe :=
  .sample [.noarch "lib" "1"]
    [.noarch "lib" "2", .noarch "app" "1" [("requires", "lib >= 2")],
      .noarch "heir" "1" [("provides", "lib = 3"), ("obsoletes", "lib = 2")]]
    (by decide +kernel)

def appThenHeir : List Job :=
  [{ kind := .install, spec := "app", target := .packages (.ofIds 1 4 [2]) },
   { kind := .install, spec := "heir", target := .packages (.ofIds 1 4 [3]) }]

/-- The next build makes room for the heir before the run is over. -/
def libraryInherited : Decisions where
  install := [2, 3]
  erase := [0]
  order := [(3, 2)]
  reasons := .ofList [(2, .user), (3, .user)]

/-- No package of the solution displaces the library at once. -/
theorem libraryInherited_displaces :
    (∃ q ∈ libraryInherited.system libraryAndHeir, q ≠ 0 ∧
      TransGen (fun old new => (Solver.mk [] [] 100 none).Displaces libraryAndHeir new old) 0 q) ∧
    ∀ q ∈ libraryInherited.system libraryAndHeir,
      ¬ (Solver.mk [] [] 100 none).Displaces libraryAndHeir q 0 := by
  have hsolve : ((Solver.mk [] [] 100 none).solve libraryAndHeir appThenHeir {}).outcome =
      .ok libraryInherited := eq_ok_of_toOption (by decide +kernel)
  constructor
  · exact solve_displaces hsolve (by simp [appThenHeir]) rfl (by decide)
  · have hall : ∀ q ∈ (libraryInherited.system libraryAndHeir).toList,
        ¬ (Solver.mk [] [] 100 none).Displaces libraryAndHeir q 0 := by decide +kernel
    intro q hq
    exact hall q (IdSet.mem_toList.mpr hq)

end Solver

end Depsolve
