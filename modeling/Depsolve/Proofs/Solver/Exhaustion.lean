import Depsolve.Proofs.Solver.Mending
import Depsolve.Proofs.Universe.Sample
import Depsolve.Solver.Solve
/-!
# What a failed search has ruled out

As long as the search goes on, a mended trial that can be reached at all can still
be reached: from the working trial, or by a repair that a choice point has left. A
search that is stuck has neither, so there never was one.
-/
namespace Depsolve

theorem Complaint.failure_ne_stepLimit (c : Complaint) (deeper : Option Failure) :
    c.failure deeper ≠ .stepLimit := by
  intro h
  cases c with
  | missing package d hadProviders isGuarded =>
    cases isGuarded with
    | true => cases h
    | false =>
      simp only [failure] at h
      split at h <;> cases h
  | conflict package other guardedOne => cases guardedOne <;> cases h

namespace Search

open Relation

variable {s : Search} {r : Rules} {t t' base : Trial} {v : Violation}

variable (s r) in
/-- A trial without violations can be reached. -/
def Mendable (t : Trial) : Prop := ∃ t', s.Mended r t t'

variable (s r) in
/-- One of the repairs leads to a trial that can be mended. -/
def Promising (base : Trial) (reps : List Repair) : Prop :=
  ∃ rep ∈ reps, ∃ t, s.repair base rep = .ok t ∧ s.Mendable r t

variable (s r) in
/-- The search has not passed by every trial without violations. -/
def Hopeful (t : Trial) (stack : List ChoicePoint) : Prop :=
  s.Mendable r t ∨ ∃ c ∈ stack, s.Promising r c.base c.untried

theorem RepairStep.exists_repair (h : s.RepairStep r t t') (hv : s.firstViolation? t = some v) :
    ∃ rep ∈ s.repairs r t v, s.repair t rep = .ok t' := by
  cases h with
  | remove hfirst hrep =>
    cases hv.symm.trans hfirst
    exact ⟨_, hrep, rfl⟩
  | add hfirst hrep hadd =>
    cases hv.symm.trans hfirst
    exact ⟨_, hrep, hadd⟩

/-- Whatever mends a trial with a violation begins with a repair of its first one. -/
theorem Mendable.promising (h : s.Mendable r t) (hv : s.firstViolation? t = some v) :
    s.Promising r t (s.repairs r t v) := by
  obtain ⟨goal, hrun, hnone⟩ := h
  rcases hrun.cases_head with rfl | ⟨next, hstep, hrest⟩
  · cases hv.symm.trans hnone
  · obtain ⟨rep, hrep, hnext⟩ := hstep.exists_repair hv
    exact ⟨rep, hrep, next, hnext, goal, hrest, hnone⟩

theorem Promising.tryRepairs_eq_ok {reps : List Repair} (h : s.Promising r base reps)
    (complaint : Complaint) (deeper : Option Failure) :
    ∃ t c, s.tryRepairs base complaint reps deeper = .ok (t, c) ∧
      (s.Mendable r t ∨ s.Promising r c.base c.untried) := by
  induction reps generalizing deeper with
  | nil =>
    obtain ⟨rep, hrep, -⟩ := h
    cases hrep
  | cons rep rest ih =>
    rw [tryRepairs]
    obtain ⟨good, hgood, t, hrepair, hmendable⟩ := h
    cases hfirst : s.repair base rep with
    | ok t₁ =>
      refine ⟨t₁, _, rfl, ?_⟩
      rcases List.mem_cons.mp hgood with rfl | hgood
      · cases hfirst.symm.trans hrepair
        exact .inl hmendable
      · exact .inr ⟨good, hgood, t, hrepair, hmendable⟩
    | error e =>
      rcases List.mem_cons.mp hgood with rfl | hgood
      · cases hfirst.symm.trans hrepair
      · exact ih ⟨good, hgood, t, hrepair, hmendable⟩ _

theorem unwind_eq_ok_of_promising {stack : List ChoicePoint}
    (h : ∃ c ∈ stack, s.Promising r c.base c.untried) (e : Failure) :
    ∃ t stack', s.unwind e stack = .ok (t, stack') ∧ s.Hopeful r t stack' := by
  induction stack generalizing e with
  | nil =>
    obtain ⟨c, hc, -⟩ := h
    cases hc
  | cons c stack ih =>
    rw [unwind]
    obtain ⟨good, hgood, hpromising⟩ := h
    cases htry : s.tryRepairs c.base c.complaint c.untried (c.noted e) with
    | ok found =>
      refine ⟨found.1, found.2 :: stack, rfl, ?_⟩
      rcases List.mem_cons.mp hgood with rfl | hgood
      · obtain ⟨t, c', hok, hhope⟩ := hpromising.tryRepairs_eq_ok good.complaint (good.noted e)
        cases htry.symm.trans hok
        exact hhope.imp_right fun hc => ⟨c', List.mem_cons_self, hc⟩
      · exact .inr ⟨good, List.mem_cons_of_mem _ hgood, hpromising⟩
    | error e₁ =>
      rcases List.mem_cons.mp hgood with rfl | hgood
      · obtain ⟨t, c', hok, -⟩ := hpromising.tryRepairs_eq_ok good.complaint (good.noted e)
        cases htry.symm.trans hok
      · exact ih ⟨good, hgood, hpromising⟩ e₁

theorem Hopeful.advance_eq_ok {stack : List ChoicePoint} (h : s.Hopeful r t stack)
    (hv : s.firstViolation? t = some v) :
    ∃ t' stack', s.advance r t v stack = .ok (t', stack') ∧ s.Hopeful r t' stack' := by
  rw [advance]
  cases htry : s.tryRepairs t (s.complaint r t v) (s.repairs r t v) none with
  | ok found =>
    refine ⟨found.1, found.2 :: stack, rfl, ?_⟩
    rcases h with hmendable | ⟨c, hc, hpromising⟩
    · obtain ⟨t₁, c₁, hok, hhope⟩ :=
        (hmendable.promising hv).tryRepairs_eq_ok (s.complaint r t v) none
      cases htry.symm.trans hok
      exact hhope.imp_right fun hc => ⟨c₁, List.mem_cons_self, hc⟩
    · exact .inr ⟨c, List.mem_cons_of_mem _ hc, hpromising⟩
  | error e =>
    rcases h with hmendable | hbelow
    · obtain ⟨t₁, c₁, hok, -⟩ :=
        (hmendable.promising hv).tryRepairs_eq_ok (s.complaint r t v) none
      cases htry.symm.trans hok
    · exact unwind_eq_ok_of_promising hbelow e

theorem Hopeful.settleFrom_ne_stuck {left left' : Nat} {e : Failure} {stack : List ChoicePoint}
    (h : s.Hopeful r t stack) : s.settleFrom r left t stack ≠ .stuck e left' := by
  induction left generalizing t stack with
  | zero => simp [settleFrom]
  | succ left ih =>
    rw [settleFrom]
    cases hviolation : s.firstViolation? t with
    | none => simp
    | some v =>
      obtain ⟨t₁, stack₁, hadvance, hhope⟩ := h.advance_eq_ok hviolation
      simp only [hadvance]
      exact ih hhope

theorem tryInPlace_ne_stepLimit {complaint : Complaint} {snapshot : Option Trial}
    {reps : List Repair} {deeper : Option Failure} {t₁ : Trial} :
    s.tryInPlace complaint snapshot reps deeper t ≠ (t₁, .error .stepLimit) := by
  induction reps generalizing snapshot deeper t with
  | nil =>
    intro h
    exact complaint.failure_ne_stepLimit deeper (Except.error.inj (Prod.mk.inj h).2)
  | cons rep rest ih =>
    rw [tryInPlace]
    cases s.repairInPlace (snapshot.getD t) rep with
    | mk t₂ failed =>
      cases failed with
      | none => simp
      | some e => exact ih

theorem unwindInPlace_ne_stepLimit {e : Failure} {stack : List Fork} (he : e ≠ .stepLimit) :
    s.unwindInPlace e stack t ≠ .error .stepLimit := by
  induction stack generalizing e t with
  | nil => simpa [unwindInPlace] using he
  | cons f stack ih =>
    rw [unwindInPlace]
    split
    · simp
    · rename_i t₁ e₁ htry
      exact ih fun heq => tryInPlace_ne_stepLimit (heq ▸ htry)

theorem advanceInPlace_ne_stepLimit {stack : List Fork} :
    s.advanceInPlace r t v stack ≠ .error .stepLimit := by
  rw [advanceInPlace]
  split
  · simp
  · rename_i t₁ e₁ htry
    exact unwindInPlace_ne_stepLimit fun heq => tryInPlace_ne_stepLimit (heq ▸ htry)

theorem settleInPlace_ne_stuck_stepLimit {left left' : Nat} {stack : List Fork} :
    s.settleInPlace r left t stack ≠ .stuck .stepLimit left' := by
  induction left generalizing t stack with
  | zero => simp [settleInPlace]
  | succ left ih =>
    rw [settleInPlace]
    cases s.firstViolation? t with
    | none => simp
    | some v =>
      cases hadvance : s.advanceInPlace r t v stack with
      | ok next =>
        simp only [hadvance]
        exact ih
      | error e =>
        simp only [hadvance, ne_eq, Settlement.stuck.injEq, not_and]
        rintro rfl
        exact absurd hadvance advanceInPlace_ne_stepLimit

/-- The search is sound and complete. A settled trial is reached by repairs of first violations
and has none; where the search is stuck, although its budget is not used up, no such trial can be
reached. Going back from a working trial that a repair has changed half-way is as good as having
kept the trial of every choice point. -/
theorem settle_sound_and_complete (s : Search) (r : Rules) (t : Trial) (left : Nat) :
    (∀ t' left', s.settle r t left = .settled t' left' → s.Mended r t t') ∧
    (∀ e left', s.settle r t left = .stuck e left' → e ≠ .stepLimit ∧ ¬ s.Mendable r t) ∧
    s.settle r t left = s.settleFrom r left t [] := by
  refine ⟨fun t' left' h => settle_eq_settled h, fun e left' h => ⟨?_, fun hmendable => ?_⟩,
    settle_eq_settleFrom r t left⟩
  · rintro rfl
    exact settleInPlace_ne_stuck_stepLimit h
  · rw [settle_eq_settleFrom] at h
    exact Hopeful.settleFrom_ne_stuck (.inl hmendable) h

/-- An application that needs a seat. A sofa takes the place of the stool and of the chair, a
bench of neither. -/
def seats : Universe :=
  .sample
    [.noarch "stool" "1", .noarch "chair" "1"]
    [.noarch "app" "1" [("requires", "seat")],
      .noarch "sofa" "1" [("provides", "seat"), ("obsoletes", "stool, chair")],
      .noarch "bench" "1" [("provides", "seat")]]
    (by decide +kernel)

def seatSearch : Search := (Solver.mk [] [] 100 none).search seats []

def strictRules : Rules := ⟨false, false, false, false, false⟩

def chairPinned : Trial := { present := .ofList [0, 1, 2], pinned := .ofList [1, 2] }

def benchCame : Trial := { chairPinned with present := .ofList [0, 1, 2, 4] }

def benchForbidden : Trial := { chairPinned with forbidden := .ofList [4] }

/-- The sofa takes the stool off before it turns out that the chair is pinned, but the stool is
there again when the bench comes in. Without the bench there is no way. -/
theorem chairPinned_settles :
    (seatSearch.repairs strictRules chairPinned (.missing 2 ⟨"seat", none⟩) = [.add 3, .add 4] ∧
      seatSearch.addInPlace chairPinned 3 =
        ({ chairPinned with present := .ofList [1, 2], obsoleted := [(3, 0)] },
          some (.pinned 1))) ∧
    (seatSearch.settle strictRules chairPinned 9 = .settled benchCame 7 ∧
      seatSearch.Mended strictRules chairPinned benchCame) ∧
    (seatSearch.settle strictRules benchForbidden 9 = .stuck (.missing 2 ⟨"seat", none⟩ true) 8 ∧
      ¬ seatSearch.Mendable strictRules benchForbidden) := by
  have hsettled : seatSearch.settle strictRules chairPinned 9 = .settled benchCame 7 := by
    decide +kernel
  have hstuck : seatSearch.settle strictRules benchForbidden 9 =
      .stuck (.missing 2 ⟨"seat", none⟩ true) 8 := by decide +kernel
  have hmended := (settle_sound_and_complete seatSearch strictRules chairPinned 9).1 _ _ hsettled
  have hnone := (settle_sound_and_complete seatSearch strictRules benchForbidden 9).2.1 _ _ hstuck
  exact ⟨by decide +kernel, ⟨hsettled, hmended⟩, hstuck, hnone.2⟩

end Search

end Depsolve
