import Depsolve.Proofs.Solver.Mirror.Request
import Depsolve.Proofs.Solver.Mirror.Solve
import Depsolve.Proofs.Solver.Step
import Depsolve.Proofs.Universe.Exclusion
import Depsolve.Proofs.Universe.Sample
/-!
# Excluded packages might as well not be there

Solving over a universe with excludes is solving over the universe of the records
that no exclude hides. The packages have other identifiers there, in the same
order, and that is all the difference that there is.
-/
namespace Depsolve

def jobsOf (u : Universe) (requests : List (Request × Demands)) : List Job :=
  requests.map fun r => r.1.job u r.2

theorem jobsOf_mirrors {f : Renaming} {v u : Universe} (h : v.Embeds u f)
    (requests : List (Request × Demands)) :
    List.Forall₂ (Job.Mirrors f) (jobsOf v requests) (jobsOf u requests) := by
  rw [jobsOf, jobsOf, List.forall₂_map_left_iff, List.forall₂_map_right_iff, List.forall₂_same]
  intro r _
  exact r.1.job_mirrors h r.2

namespace Solver

variable {solver : Solver} {u : Universe} {jobs : List Job} {call : Demands} {d : Decisions}

theorem considered_of_mem_system (h : (solver.solve u jobs call).outcome = .ok d) {p : PackageId}
    (hp : p ∈ d.system u) : p ∈ u.considered := by
  obtain ⟨t, hrun, hsystem, -⟩ := exists_run h
  rw [hsystem] at hp
  exact (hrun.coherent Search.coherent_initial).considered p hp

theorem mem_system_of_mem_install {p : PackageId} (hp : p ∈ d.install) : p ∈ d.system u :=
  Decisions.mem_system.mpr (.inr hp)

theorem mem_install_of_mem_obsoletes (h : (solver.solve u jobs call).outcome = .ok d)
    {p : PackageId × PackageId} (hp : p ∈ d.obsoletes) : p.1 ∈ d.install := by
  obtain ⟨-, t, -, rfl⟩ := solve_eq_ok h
  simp only [Search.decisions, mem_eraseReps, mem_sortCmp, List.mem_filter, Bool.and_eq_true] at hp
  exact IdSet.mem_toList.mpr hp.2.1

theorem mem_install_of_mem_order (h : (solver.solve u jobs call).outcome = .ok d)
    {p : PackageId × PackageId} (hp : p ∈ d.order) : p.1 ∈ d.install := by
  obtain ⟨-, t, -, rfl⟩ := solve_eq_ok h
  simp only [Search.decisions, mem_eraseReps, mem_sortCmp, List.mem_flatMap, List.mem_map,
    IdSet.mem_toList, IdSet.mem_erase, IdSet.mem_inter] at hp
  obtain ⟨dependent, -, need, -, dependency, ⟨⟨-, hnew⟩, -⟩, rfl⟩ := hp
  exact IdSet.mem_toList.mpr hnew

/-- Requests have the same outcome over a universe with excludes and over that of the records
that are left without the excluded ones, when packages are renamed, and so have any jobs that are
about the same packages. In particular no excluded package is put on the system, provides what
another needs, or obsoletes anything. -/
theorem solve_excludes {generation : Nat} {repositories : List Repository}
    {excludes : List String} {arch : Option String} {u : Universe}
    (h : Universe.build generation repositories excludes arch = .ok u) (generation' : Nat) :
    ∃ v, Universe.build generation' (repositories.map (Repository.without excludes)) [] arch =
        .ok v ∧
      (∀ i, i ∈ v.considered ↔ i < v.size) ∧ v.Embeds u u.place ∧
      (∀ (solver : Solver) (requests : List (Request × Demands)) (call : Demands),
        (solver.solve u (jobsOf u requests) call).outcome =
          renameOutcome u.place (solver.solve v (jobsOf v requests) call).outcome) ∧
      (∀ (solver : Solver) (jobs jobs' : List Job) (call : Demands),
        List.Forall₂ (Job.Mirrors u.place) jobs jobs' →
          (solver.solve u jobs' call).outcome =
            renameOutcome u.place (solver.solve v jobs call).outcome) ∧
      ∀ (solver : Solver) (jobs : List Job) (call : Demands) (d : Decisions),
        (solver.solve u jobs call).outcome = .ok d →
          (∀ p ∈ d.system u, (u.get p).visible excludes = true) ∧
          (∀ p ∈ d.order, (u.get p.1).visible excludes = true) ∧
          ∀ p ∈ d.obsoletes, (u.get p.1).visible excludes = true := by
  obtain ⟨v, hbuild, hall, hembeds⟩ := Universe.exists_build_without generation' h
  refine ⟨v, hbuild, hall, hembeds, ?_, ?_, ?_⟩
  · intro solver requests call
    exact solver.outcome_mirrors hembeds (jobsOf_mirrors hembeds requests) call
  · intro solver jobs jobs' call hjobs
    exact solver.outcome_mirrors hembeds hjobs call
  · intro solver jobs call d hsolve
    have hvisible : ∀ p ∈ d.system u, (u.get p).visible excludes = true := by
      intro p hp
      exact Universe.visible_of_considered h (considered_of_mem_system hsolve hp)
    refine ⟨hvisible, fun p hp => ?_, fun p hp => ?_⟩
    · exact hvisible p.1 (mem_system_of_mem_install (mem_install_of_mem_order hsolve hp))
    · exact hvisible p.1 (mem_system_of_mem_install (mem_install_of_mem_obsoletes hsolve hp))

/-- An installed library with a newer build, and a tool that needs a codec, of which there are
two. -/
def toolShelf : List Repository :=
  [⟨systemRepository, defaultPriority, true, [.noarch "lib" "1"]⟩,
    ⟨"base", defaultPriority, false,
      [.noarch "lib" "2", .noarch "codec-fast" "2" [("provides", "codec")],
        .noarch "codec-slow" "1" [("provides", "codec")],
        .noarch "tool" "1" [("requires", "codec")]]⟩]

/-- The newer library and the newer codec are excluded. -/
def toolUniverse : Universe :=
  (Universe.build 1 toolShelf ["lib", "codec-f*"]).toOption.get (by decide +kernel)

def toolAndUpgrade : List (Request × Demands) :=
  [(.install { name := some (.exact "tool") }, {}), (.upgradeAll, {})]

def toolInstalled : Decisions where
  install := [3, 4]
  order := [(3, 4)]
  reasons := .ofList [(3, .dependency), (4, .user)]

theorem toolInstalled_excludes :
    ((Solver.mk [] [] 100 none).solve toolUniverse (jobsOf toolUniverse toolAndUpgrade)
      {}).outcome = .ok toolInstalled ∧
    (∀ p ∈ toolInstalled.system toolUniverse,
      (toolUniverse.get p).visible ["lib", "codec-f*"] = true) ∧
    ∃ v, Universe.build 2 (toolShelf.map (Repository.without ["lib", "codec-f*"])) = .ok v ∧
      renameOutcome toolUniverse.place
        ((Solver.mk [] [] 100 none).solve v (jobsOf v toolAndUpgrade) {}).outcome =
          .ok toolInstalled := by
  have hbuild : Universe.build 1 toolShelf ["lib", "codec-f*"] = .ok toolUniverse :=
    eq_ok_of_toOption (Option.some_get _).symm
  have hsolve : ((Solver.mk [] [] 100 none).solve toolUniverse
      (jobsOf toolUniverse toolAndUpgrade) {}).outcome = .ok toolInstalled :=
    eq_ok_of_toOption (by decide +kernel)
  obtain ⟨v, hv, -, -, hsame, -, hvisible⟩ := solve_excludes hbuild 2
  refine ⟨hsolve, (hvisible _ _ _ _ hsolve).1, v, hv, ?_⟩
  rw [← hsame, hsolve]

end Solver

end Depsolve
