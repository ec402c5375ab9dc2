import Depsolve.Proofs.Solver.Step
/-!
# Changes of what is present

For what becomes of a package that is present it does not matter why a step was
taken: an installed package that is not protected is removed, or a package arrives.
-/
namespace Depsolve.Search

open Relation

variable {s : Search} {r : Rules} {job : Job} {t t' : Trial}

variable (s) in
inductive Change : Trial → Trial → Prop
  | keep {t t' : Trial} (hsame : t'.present = t.present) : Change t t'
  | remove {t t' : Trial} {id : PackageId} (hid : id ∈ s.initial) (hguarded : id ∉ s.guarded)
      (herase : t'.present = t.present.erase id) : Change t t'
  | arrive {t : Trial} {id : PackageId} (hid : id ∈ s.pool.considered)
      (hguarded : ∀ old ∈ s.displacedByObsoletes t id, old ∉ s.guarded) :
      Change t (s.arrival t id)

theorem Step.change (h : s.Step r job t t') : s.Change t t' := by
  cases h with
  | mark | pin => exact .keep rfl
  | arrive hwanted _ _ _ hobsoletes =>
    exact .arrive hwanted.mem_considered fun old hold => (hobsoletes old hold).2
  | remove _ hid _ hguarded => exact .remove hid hguarded rfl
  | clean _ _ hunneeded =>
    have hspec := isUnneeded_iff.mp hunneeded
    exact .remove hspec.2.1 hspec.2.2.2.1 rfl

end Depsolve.Search

namespace Depsolve.Solver

open Relation

variable {solver : Solver} {u : Universe} {jobs : List Job} {call : Demands} {d : Decisions}

theorem solve_changes (h : (solver.solve u jobs call).outcome = .ok d) :
    ∃ t, ReflTransGen (solver.search u jobs).Change { present := u.installed.members } t ∧
      d.system u = t.present := by
  obtain ⟨t, hrun, hsystem, -⟩ := exists_run h
  refine ⟨t, ReflTransGen.mono ?_ _ _ hrun, hsystem⟩
  rintro t₁ t₂ ⟨_, -, hstep⟩
  exact hstep.change

end Depsolve.Solver
