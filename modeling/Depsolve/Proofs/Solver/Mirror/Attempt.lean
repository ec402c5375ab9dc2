import Depsolve.Proofs.Solver.Candidates
import Depsolve.Proofs.Solver.Mirror.Settle
/-!
# The same attempts over a larger universe

A mirrored search that tries the renamed candidates chooses the renamed one, or
fails for the renamed reason, and has the same budget left.
-/
namespace Depsolve

/-- The same end about renamed packages, with the same budget left. -/
structure Attempt.Mirrors (f : Renaming) (a a' : Attempt) : Prop where
  result : a'.result = renameResult f (Trial.rename f) a.result
  left : a'.left = a.left

namespace Attempt.Mirrors

variable {f : Renaming} {a a' : Attempt}

theorem fail (e : Failure) (left : Nat) :
    (Attempt.fail e left).Mirrors f (.fail (e.rename f) left) := ⟨rfl, rfl⟩

theorem done (t : Trial) (left : Nat) :
    (Attempt.done t left).Mirrors f (.done (t.rename f) left) := ⟨rfl, rfl⟩

theorem andThen {next next' : Trial → Nat → Attempt} (h : a.Mirrors f a')
    (hnext : ∀ t left, (next t left).Mirrors f (next' (t.rename f) left)) :
    (a.andThen next).Mirrors f (a'.andThen next') := by
  have hresult := h.result
  cases hend : a.result with
  | error e =>
    rw [hend, renameResult_error] at hresult
    simp only [Attempt.andThen, hend, hresult]
    exact ⟨rfl, h.left⟩
  | ok t =>
    rw [hend, renameResult_ok] at hresult
    simp only [Attempt.andThen, hend, hresult, h.left]
    exact ⟨(hnext t a.left).result, (hnext t a.left).left⟩

end Attempt.Mirrors

namespace Search

theorem pin_rename {f : Renaming} (reason : Option Reason) (t : Trial) (id : PackageId) :
    pin reason (t.rename f) (f id) = (pin reason t id).rename f := by
  cases reason <;> simp only [pin, Trial.rename, IdSet.rename_insert, Reasons.rename_insert]

end Search

namespace Search.Mirrors

variable {s s' : Search} {f : Renaming} (h : s.Mirrors s' f)

include h

theorem choose (r : Rules) (reason : Option Reason) (t : Trial) (i : PackageId) (left : Nat) :
    (s.choose r reason t i left).Mirrors f (s'.choose r reason (t.rename f) (f i) left) := by
  rw [choose_eq, choose_eq, pin_rename, h.add]
  cases s.add (pin reason t i) i with
  | error e => exact .fail e left
  | ok t₁ =>
    simp only [renameResult_ok, h.settle]
    cases s.settle r t₁ left with
    | settled t₂ left => exact .done t₂ left
    | stuck e left => exact .fail e left
    | overBudget => exact .fail .stepLimit 0

theorem chooseFirst (r : Rules) (reason : Option Reason) (t : Trial) (ids : List PackageId)
    (first : Option Failure) (left : Nat) :
    (s.chooseFirst r reason t ids first left).Mirrors f
      (s'.chooseFirst r reason (t.rename f) (ids.map f) (first.map (Failure.rename f)) left) := by
  induction ids generalizing first left with
  | nil =>
    rw [List.map_nil, Search.chooseFirst, Search.chooseFirst]
    cases first with
    | none => exact .fail (.notApplicable .noCandidate) left
    | some e => exact .fail e left
  | cons id rest ih =>
    have hchoose := h.choose r reason t id left
    simp only [List.map_cons, Search.chooseFirst, hchoose.result, hchoose.left]
    cases (s.choose r reason t id left).result with
    | ok t₁ => exact .done t₁ _
    | error e =>
      -- any failure but a spent budget is noted, and the next candidate has its turn
      cases e with
      | stepLimit => exact .fail .stepLimit _
      | _ =>
        simp only [renameResult_error, Failure.rename]
        rw [← Failure.rename, firstFailure_rename]
        exact ih _ _

theorem replaceOrKeep (r : Rules) (t : Trial) (old : PackageId) (ids : List PackageId)
    (left : Nat) :
    (s.replaceOrKeep r t old ids left).Mirrors f
      (s'.replaceOrKeep r (t.rename f) (f old) (ids.map f) left) := by
  have hfirst := h.chooseFirst r none t ids none left
  have hresult := hfirst.result
  rw [Option.map_none] at hfirst hresult
  cases hend : (s.chooseFirst r none t ids none left).result with
  | ok t₁ =>
    rw [hend, renameResult_ok] at hresult
    simp only [Search.replaceOrKeep, hend, hresult]
    exact hfirst
  | error e =>
    rw [hend, renameResult_error] at hresult
    cases e with
    | stepLimit =>
      simp only [Failure.rename] at hresult
      simp only [Search.replaceOrKeep, hend, hresult]
      exact hfirst
    | _ =>
      simp only [Failure.rename] at hresult
      simp only [Search.replaceOrKeep, hend, hresult]
      split
      · exact hfirst
      · exact ⟨rfl, hfirst.left⟩

omit h in
theorem forEach {candidates candidates' : Trial → PackageId → List PackageId}
    {act act' : Trial → PackageId → List PackageId → Nat → Attempt}
    (hcandidates : ∀ t i, candidates' (t.rename f) (f i) = (candidates t i).map f)
    (hact : ∀ t i ids left,
      (act t i ids left).Mirrors f (act' (t.rename f) (f i) (ids.map f) left))
    (ids : List PackageId) (t : Trial) (left : Nat) :
    (Search.forEach candidates act ids t left).Mirrors f
      (Search.forEach candidates' act' (ids.map f) (t.rename f) left) := by
  induction ids generalizing t left with
  | nil => exact .done t left
  | cons id rest ih =>
    rw [List.map_cons, Search.forEach, Search.forEach, hcandidates, Trial.rename_present,
      IdSet.contains_rename, List.isEmpty_map]
    split
    · exact ih t left
    · exact (hact t id (candidates t id) left).andThen ih

end Search.Mirrors

end Depsolve
