import Depsolve.Proofs.Plan.Labels
import Depsolve.Proofs.Solver.WorkingCopy
/-!
# The plan of a solution names who obsoletes whom

A search records a pair only when a package that comes in takes another one off because it
obsoletes it. So the plan of a solution calls a package obsolete exactly if something that
comes in obsoletes it.
-/
namespace Depsolve

namespace Solver

open Plan

variable {solver : Solver} {u : Universe} {jobs : List Job} {call : Demands} {d : Decisions}

theorem solve_records (h : (solver.solve u jobs call).outcome = .ok d) :
    ∀ p ∈ d.obsoletes, (u.get p.1).obsoletesPackage (u.get p.2) = true := by
  obtain ⟨hproblems, t, hmoves, rfl⟩ := solve_eq_ok h
  have horderly := (run_of_moves hproblems hmoves).orderly Search.orderly_initial
  intro p hp
  have hrecorded := (List.mem_filter.mp (mem_sortCmp.mp (mem_eraseReps.mp hp))).1
  exact (horderly.obsoleted p hrecorded).2

/-- In the plan of a solution, a package that leaves and that no build follows is the subject of
one operation. The operation is an obsoletion exactly if something that comes in obsoletes the
package. Then it names such a newcomer and stands before its operation, with at most other packages
that the newcomer obsoletes in between. Otherwise it is an erase and stands before everything that
comes in. -/
theorem solve_labels (h : (solver.solve u jobs call).outcome = .ok d) {old : PackageId}
    (hold : old ∈ leaving (materialize u d).operations)
    (hfree : ∀ op ∈ (materialize u d).operations, op.replacedBuild? ≠ some old) :
    ∃ op ∈ (materialize u d).operations, op.package = old ∧
      (∀ other ∈ (materialize u d).operations, other.package = old → other = op) ∧
      (op.kind = .obsolete ↔ ∃ new ∈ (materialize u d).inbound,
        (u.get new).obsoletesPackage (u.get old) = true) ∧
      (op.kind = .obsolete → ∃ new ∈ (materialize u d).inbound, op.replaced = some new ∧
        (u.get new).obsoletesPackage (u.get old) = true ∧
        StandsBefore (materialize u d).operations op new) ∧
      (op.kind ≠ .obsolete → op.kind = .erase ∧ StandsFirst (materialize u d).operations op) := by
  obtain ⟨op, hop, rfl, hkind, hunique⟩ := exists_leaving_operation hold hfree
  obtain ⟨erases, blocks, changes, hoperations, hlayout⟩ := materialize_layout u d
  have hmem := hoperations ▸ hop
  have hnames : op.kind = .obsolete → ∃ new ∈ (materialize u d).inbound,
      op.replaced = some new ∧ (u.get new).obsoletesPackage (u.get op.package) = true :=
    obsolete_replaced (solve_records h) hop
  refine ⟨op, hop, rfl, hunique, ?_, ?_, ?_⟩
  · constructor
    · intro hobsolete
      obtain ⟨new, hnew, -, hobsoletes⟩ := hnames hobsolete
      exact ⟨new, hnew, hobsoletes⟩
    · rintro ⟨new, hnew, hobsoletes⟩
      apply hkind.resolve_left
      intro herase
      rw [erase_unobsoleted hop herase new hnew] at hobsoletes
      cases hobsoletes
  · intro hobsolete
    obtain ⟨new, hnew, hreplaced, hobsoletes⟩ := hnames hobsolete
    obtain ⟨new', hreplaced', hstands⟩ := hlayout.standsBefore hmem hobsolete
    obtain rfl : new = new' := Option.some.inj (hreplaced.symm.trans hreplaced')
    exact ⟨new, hnew, hreplaced, hobsoletes, hoperations ▸ hstands⟩
  · intro hother
    have herase := hkind.resolve_right hother
    exact ⟨herase, hoperations ▸ hlayout.standsFirst hmem herase⟩

/-- A tool under its old name, something unrelated, and the tool under its new name. -/
def toolRenamed : Universe :=
  .sample [.noarch "oldtool" "1", .noarch "stray" "1"]
    [.noarch "tool" "2" [("obsoletes", "oldtool < 2")]] (by decide +kernel)

def toolInstalledStrayErased : List Job :=
  [{ kind := .install, spec := "tool", target := .packages (.ofIds 1 3 [2]) },
   { kind := .erase, spec := "stray", target := .packages (.ofIds 1 3 [1]) }]

def toolReplacesOldtool : Decisions where
  install := [2]
  erase := [0, 1]
  obsoletes := [(2, 0)]
  reasons := .ofList [(2, .user)]

/-- The new name obsoletes the old one, and nothing obsoletes the stray package. -/
theorem toolReplacesOldtool_labels :
    (∃ op ∈ (materialize toolRenamed toolReplacesOldtool).operations, op.package = 0 ∧
      op.kind = .obsolete ∧
      StandsBefore (materialize toolRenamed toolReplacesOldtool).operations op 2) ∧
    ∃ op ∈ (materialize toolRenamed toolReplacesOldtool).operations, op.package = 1 ∧
      op.kind = .erase ∧
      StandsFirst (materialize toolRenamed toolReplacesOldtool).operations op := by
  have hsolve : ((Solver.mk [] [] 100 none).solve toolRenamed
      toolInstalledStrayErased {}).outcome = .ok toolReplacesOldtool :=
    eq_ok_of_toOption (by decide +kernel)
  have hinbound : (materialize toolRenamed toolReplacesOldtool).inbound = [2] := by decide +kernel
  have hold : 0 ∈ leaving (materialize toolRenamed toolReplacesOldtool).operations ∧
      1 ∈ leaving (materialize toolRenamed toolReplacesOldtool).operations := by decide +kernel
  constructor
  · obtain ⟨op, hop, hpackage, -, hlabel, hobsolete, -⟩ :=
      solve_labels hsolve hold.1 (by decide +kernel)
    have hkind : op.kind = .obsolete := hlabel.mpr ⟨2, by simp [hinbound], by decide +kernel⟩
    obtain ⟨new, hnew, -, -, hstands⟩ := hobsolete hkind
    obtain rfl : new = 2 := by simpa [hinbound] using hnew
    exact ⟨op, hop, hpackage, hkind, hstands⟩
  · obtain ⟨op, hop, hpackage, -, hlabel, -, herase⟩ :=
      solve_labels hsolve hold.2 (by decide +kernel)
    have hkind : op.kind ≠ .obsolete := by
      intro hobsolete
      obtain ⟨new, hnew, hobsoletes⟩ := hlabel.mp hobsolete
      obtain rfl : new = 2 := by simpa [hinbound] using hnew
      exact absurd hobsoletes (by decide +kernel)
    exact ⟨op, hop, hpackage, herase hkind⟩

end Solver

end Depsolve
