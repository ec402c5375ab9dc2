import Depsolve.Proofs.Solver.Backtracking
import Depsolve.Proofs.Solver.Mirror.Trial
/-!
# The same search over a larger universe

A mirrored search meets the renamed violations in the same order, tries the renamed
repairs, and goes back to the renamed choice points. It looks as often for a
violation, so both searches come to the same end with the same budget left.
-/
namespace Depsolve

def Repair.rename (f : Renaming) : Repair → Repair
  | .remove id => .remove (f id)
  | .add id => .add (f id)

def Complaint.rename (f : Renaming) : Complaint → Complaint
  | .missing package d hadProviders isGuarded => .missing (f package) d hadProviders isGuarded
  | .conflict package other guardedOne => .conflict (f package) (f other) (guardedOne.map f)

def ChoicePoint.rename (f : Renaming) (c : ChoicePoint) : ChoicePoint where
  base := c.base.rename f
  untried := c.untried.map (Repair.rename f)
  current := c.current.rename f
  deeper := c.deeper.map (Failure.rename f)
  complaint := c.complaint.rename f

def Settlement.rename (f : Renaming) : Settlement → Settlement
  | .settled t left => .settled (t.rename f) left
  | .stuck e left => .stuck (e.rename f) left
  | .overBudget => .overBudget

section Failures

variable {f : Renaming}

theorem Complaint.rename_failure (c : Complaint) (deeper : Option Failure) :
    (c.rename f).failure (deeper.map (Failure.rename f)) = (c.failure deeper).rename f := by
  cases c with
  | missing package d hadProviders isGuarded =>
    cases isGuarded with
    | true => rfl
    | false =>
      cases deeper with
      | none => rfl
      | some e => cases e <;> rfl
  | conflict package other guardedOne => cases guardedOne <;> rfl

theorem firstFailure_rename (first : Option Failure) (e : Failure) :
    (first.map (Failure.rename f) <|> some (e.rename f)) =
      (first <|> some e).map (Failure.rename f) := by
  cases first <;> rfl

theorem ChoicePoint.rename_noted (c : ChoicePoint) (e : Failure) :
    (c.rename f).noted (e.rename f) = (c.noted e).map (Failure.rename f) := by
  obtain ⟨base, untried, current, deeper, complaint⟩ := c
  cases current with
  | remove id => rfl
  | add id => exact firstFailure_rename deeper e

end Failures

namespace Search.Mirrors

variable {s s' : Search} {f : Renaming} (h : s.Mirrors s' f)

include h

theorem removal (r : Rules) (t : Trial) (i : PackageId) :
    s'.removal r (t.rename f) (f i) = s.removal r t i := by
  simp only [Search.removal, h.initial, h.guarded, Trial.rename_pinned, IdSet.contains_rename]

theorem isDowngrade (t : Trial) (i : PackageId) :
    s'.isDowngrade (t.rename f) (f i) = s.isDowngrade t i := by
  rw [Search.isDowngrade, Search.isDowngrade, h.isInstallonly, h.name]
  congr 1
  apply h.pool.any_byName
  · intro j
    rw [Trial.rename_present, IdSet.contains_rename, h.sameArchFamily, h.evr, h.evr]
  · intro id hid
    simp only [Bool.and_eq_true] at hid
    exact exists_of_present hid.1.1

theorem providers (r : Rules) (t : Trial) (d : Dependency) :
    s'.providers r (t.rename f) d = (s.providers r t d).map f := by
  rw [Search.providers, Search.providers, h.policy, ← h.pool.preferNamed]
  congr 1
  apply h.pool.filter_whatProvides
  · intro j
    rw [h.pool.contains_considered, Trial.rename_forbidden, IdSet.contains_rename, h.isDowngrade]
  · intro id hid
    simp only [Bool.and_eq_true] at hid
    exact h.pool.exists_of_considered hid.1.1

theorem missingRepairs (r : Rules) (t : Trial) (i : PackageId) (d : Dependency) :
    s'.missingRepairs r (t.rename f) (f i) d =
      (s.missingRepairs r t i d).map (Repair.rename f) := by
  have hadds : ((s.providers r t d).map f).map Repair.add =
      ((s.providers r t d).map Repair.add).map (Repair.rename f) := by
    rw [List.map_map, List.map_map]
    rfl
  have hremoves : (if s.removal r t i = .allowed then [Repair.remove (f i)] else []) =
      (if s.removal r t i = .allowed then [Repair.remove i] else []).map (Repair.rename f) := by
    split <;> rfl
  simp only [Search.missingRepairs, h.providers, h.removal, hadds, hremoves, ← List.map_append]
  split <;> rfl

theorem conflictSides (i j : PackageId) :
    s'.conflictSides (f i) (f j) = (s.conflictSides i j).map f := by
  simp only [Search.conflictSides, h.initial, IdSet.contains_rename]
  split <;> rfl

theorem repairs (r : Rules) (t : Trial) (v : Violation) :
    s'.repairs r (t.rename f) (v.rename f) = (s.repairs r t v).map (Repair.rename f) := by
  cases v with
  | missing package d => exact h.missingRepairs r t package d
  | conflict package other =>
    simp only [Violation.rename, Search.repairs, h.conflictSides, List.filter_map,
      Function.comp_def, h.removal, List.map_map, Repair.rename]

theorem complaint (r : Rules) (t : Trial) (v : Violation) :
    s'.complaint r (t.rename f) (v.rename f) = (s.complaint r t v).rename f := by
  cases v with
  | missing package d =>
    simp only [Violation.rename, Search.complaint, h.providers, h.removal, List.isEmpty_map,
      Complaint.rename]
  | conflict package other =>
    simp only [Violation.rename, Search.complaint, h.conflictSides, List.find?_map,
      Function.comp_def, h.removal, Complaint.rename]

theorem repair (t : Trial) (rep : Repair) :
    s'.repair (t.rename f) (rep.rename f) = renameResult f (Trial.rename f) (s.repair t rep) := by
  cases rep with
  | remove id =>
    simp only [Repair.rename, Search.repair, renameResult_ok, Trial.rename, IdSet.rename_erase,
      IdSet.rename_insert]
  | add id => exact h.add t id

theorem tryRepairs (base : Trial) (c : Complaint) (reps : List Repair) (deeper : Option Failure) :
    s'.tryRepairs (base.rename f) (c.rename f) (reps.map (Repair.rename f))
        (deeper.map (Failure.rename f)) =
      renameResult f (Prod.map (Trial.rename f) (ChoicePoint.rename f))
        (s.tryRepairs base c reps deeper) := by
  induction reps generalizing deeper with
  | nil => rw [List.map_nil, Search.tryRepairs, c.rename_failure, Search.tryRepairs,
      renameResult_error]
  | cons rep rest ih =>
    rw [List.map_cons, Search.tryRepairs, Search.tryRepairs, h.repair]
    cases s.repair base rep with
    | ok t => rfl
    | error e =>
      simp only [renameResult_error, firstFailure_rename]
      exact ih _

theorem unwind (e : Failure) (stack : List ChoicePoint) :
    s'.unwind (e.rename f) (stack.map (ChoicePoint.rename f)) =
      renameResult f (Prod.map (Trial.rename f) (List.map (ChoicePoint.rename f)))
        (s.unwind e stack) := by
  induction stack generalizing e with
  | nil => rfl
  | cons c stack ih =>
    have htry := h.tryRepairs c.base c.complaint c.untried (c.noted e)
    rw [← c.rename_noted] at htry
    rw [List.map_cons, Search.unwind, Search.unwind]
    simp only [ChoicePoint.rename] at htry ⊢
    rw [htry]
    cases s.tryRepairs c.base c.complaint c.untried (c.noted e) with
    | ok found => rfl
    | error e₁ => exact ih e₁

theorem advance (r : Rules) (t : Trial) (v : Violation) (stack : List ChoicePoint) :
    s'.advance r (t.rename f) (v.rename f) (stack.map (ChoicePoint.rename f)) =
      renameResult f (Prod.map (Trial.rename f) (List.map (ChoicePoint.rename f)))
        (s.advance r t v stack) := by
  have htry := h.tryRepairs t (s.complaint r t v) (s.repairs r t v) none
  rw [Option.map_none] at htry
  rw [Search.advance, Search.advance, h.complaint, h.repairs, htry]
  cases s.tryRepairs t (s.complaint r t v) (s.repairs r t v) none with
  | ok found => rfl
  | error e => exact h.unwind e stack

theorem settleFrom (r : Rules) (left : Nat) (t : Trial) (stack : List ChoicePoint) :
    s'.settleFrom r left (t.rename f) (stack.map (ChoicePoint.rename f)) =
      (s.settleFrom r left t stack).rename f := by
  -- on the budget, of which both searches spend one step on each look
  induction left generalizing t stack with
  | zero => rfl
  | succ left ih =>
    rw [Search.settleFrom, Search.settleFrom, h.firstViolation?]
    cases s.firstViolation? t with
    | none => rfl
    | some v =>
      simp only [Option.map_some, h.advance]
      cases s.advance r t v stack with
      | ok next => exact ih next.1 next.2
      | error e => rfl

theorem settle (r : Rules) (t : Trial) (left : Nat) :
    s'.settle r (t.rename f) left = (s.settle r t left).rename f := by
  rw [settle_eq_settleFrom, settle_eq_settleFrom]
  exact h.settleFrom r left t []

end Search.Mirrors

end Depsolve
