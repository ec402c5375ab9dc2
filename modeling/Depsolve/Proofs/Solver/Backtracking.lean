import Depsolve.Solver.Settle
import Mathlib.Data.List.Forall2
/-!
# Backtracking without a working trial

The search for a trial without violations as it reads without anything changed in
place: every choice point keeps the trial in which its violation was found, and
each repair is carried out on that very trial. Both searches have the same end, so
nothing that a failed repair has changed half-way is ever built upon.
-/
namespace Depsolve

/-- A violation under repair. -/
structure ChoicePoint where
  /-- The trial in which the violation was found. -/
  base : Trial
  untried : List Repair
  current : Repair
  /-- The first failure of a provider that was tried. -/
  deeper : Option Failure
  complaint : Complaint

def ChoicePoint.noted (c : ChoicePoint) (e : Failure) : Option Failure :=
  match c.current with
  | .add _ => c.deeper <|> some e
  | .remove _ => c.deeper

namespace Search

variable (s : Search)

/-- Carry out the first of the repairs that can be, and keep the others. -/
def tryRepairs (base : Trial) (complaint : Complaint) :
    List Repair → Option Failure → Except Failure (Trial × ChoicePoint)
  | [], deeper => .error (complaint.failure deeper)
  | r :: rest, deeper =>
    match s.repair base r with
    | .ok t => .ok (t, ⟨base, rest, r, deeper, complaint⟩)
    | .error e => tryRepairs base complaint rest (deeper <|> some e)

/-- Go back to the nearest choice point with a repair left that can be carried out. -/
def unwind (e : Failure) : List ChoicePoint → Except Failure (Trial × List ChoicePoint)
  | [] => .error e
  | c :: stack =>
    match s.tryRepairs c.base c.complaint c.untried (c.noted e) with
    | .ok (t, c) => .ok (t, c :: stack)
    | .error e => unwind e stack

/-- Repair a violation found in `t`, or go back. -/
def advance (r : Rules) (t : Trial) (v : Violation) (stack : List ChoicePoint) :
    Except Failure (Trial × List ChoicePoint) :=
  match s.tryRepairs t (s.complaint r t v) (s.repairs r t v) none with
  | .ok (t, c) => .ok (t, c :: stack)
  | .error e => s.unwind e stack

/-- Repair violations until none is left, with the budget that is left. -/
def settleFrom (r : Rules) : Nat → Trial → List ChoicePoint → Settlement
  | 0, _, _ => .overBudget
  | left + 1, t, stack =>
    match s.firstViolation? t with
    | none => .settled t left
    | some v =>
      match s.advance r t v stack with
      | .ok (t, stack) => settleFrom r left t stack
      | .error e => .stuck e left

variable {s} {r : Rules} {t base : Trial} {id : PackageId}

theorem changeEach_of_foldlM (change : Trial → PackageId → Except Failure Trial)
    (ids : List PackageId) (t : Trial) :
    (∀ t', ids.foldlM change t = .ok t' → changeEach change ids t = (t', none)) ∧
      ∀ e, ids.foldlM change t = .error e → ∃ t', changeEach change ids t = (t', some e) := by
  induction ids generalizing t with
  | nil =>
    refine ⟨fun t' h => ?_, fun e h => ?_⟩
    · cases h
      rfl
    · cases h
  | cons id ids ih =>
    rw [List.foldlM_cons, changeEach]
    cases hchange : change t id with
    | ok t₁ => exact ih t₁
    | error e₁ =>
      refine ⟨fun t' h => ?_, fun e h => ?_⟩
      · cases h
      · cases h
        exact ⟨t, rfl⟩

theorem addInPlace_of_add (t : Trial) (id : PackageId) :
    (∀ t', s.add t id = .ok t' → s.addInPlace t id = (t', none)) ∧
      ∀ e, s.add t id = .error e → ∃ t', s.addInPlace t id = (t', some e) := by
  rw [add, addInPlace]
  split
  · refine ⟨fun t' h => ?_, fun e h => ?_⟩
    · cases h
      rfl
    · cases h
  · split
    · refine ⟨fun t' h => ?_, fun e h => ?_⟩
      · cases h
      · cases h
        exact ⟨t, rfl⟩
    · obtain ⟨hbuilds, hbuildsFail⟩ :=
        changeEach_of_foldlM displaceBuild (s.displacedBuilds t id) t
      cases hfirst : (s.displacedBuilds t id).foldlM displaceBuild t with
      | error e₁ =>
        obtain ⟨t₁, hchanged⟩ := hbuildsFail e₁ hfirst
        rw [hchanged]
        refine ⟨fun t' h => ?_, fun e h => ?_⟩
        · cases h
        · cases h
          exact ⟨t₁, rfl⟩
      | ok t₁ =>
        rw [hbuilds t₁ hfirst]
        obtain ⟨hobsoletes, hobsoletesFail⟩ :=
          changeEach_of_foldlM (s.displaceObsolete id) (s.displacedByObsoletes t id) t₁
        cases hsecond : (s.displacedByObsoletes t id).foldlM (s.displaceObsolete id) t₁ with
        | error e₂ =>
          obtain ⟨t₂, hchanged⟩ := hobsoletesFail e₂ hsecond
          simp only [bind, Except.bind, hsecond, hchanged]
          refine ⟨fun t' h => ?_, fun e h => ?_⟩
          · cases h
          · cases h
            exact ⟨t₂, rfl⟩
        | ok t₂ =>
          simp only [bind, Except.bind, hsecond, hobsoletes t₂ hsecond]
          refine ⟨fun t' h => ?_, fun e h => ?_⟩
          · cases h
            rfl
          · cases h

theorem repairInPlace_of_repair (t : Trial) (rep : Repair) :
    (∀ t', s.repair t rep = .ok t' → s.repairInPlace t rep = (t', none)) ∧
      ∀ e, s.repair t rep = .error e → ∃ t', s.repairInPlace t rep = (t', some e) := by
  cases rep with
  | remove id =>
    refine ⟨fun t' h => ?_, fun e h => ?_⟩
    · cases h
      rfl
    · cases h
  | add id => exact addInPlace_of_add t id

end Search

/-- A fork stands for a choice point when the search can go back to the trial of the choice
point as often as there are repairs left to try. -/
structure Fork.StandsFor (f : Fork) (c : ChoicePoint) : Prop where
  untried : f.untried = c.untried
  current : f.current = c.current
  deeper : f.deeper = c.deeper
  complaint : f.complaint = c.complaint
  snapshot : f.untried ≠ [] → f.snapshot = some c.base

theorem Fork.StandsFor.noted {f : Fork} {c : ChoicePoint} (h : f.StandsFor c) (e : Failure) :
    f.noted e = c.noted e := by
  have hcurrent := h.current
  cases hchoice : c.current <;> rw [hchoice] at hcurrent <;>
    simp only [Fork.noted, ChoicePoint.noted, hcurrent, hchoice, h.deeper]

namespace Search

variable {s : Search} {r : Rules} {t base : Trial}

/-- The trials that failed repairs leave behind do not matter: the snapshot is there for every
repair but a single one, and that one starts from the trial itself. -/
theorem tryInPlace_of_tryRepairs {reps : List Repair} {snapshot : Option Trial}
    (complaint : Complaint) (deeper : Option Failure) (t : Trial)
    (hfirst : reps ≠ [] → snapshot.getD t = base)
    (hmore : reps.length > 1 → snapshot = some base) :
    (∀ t' c, s.tryRepairs base complaint reps deeper = .ok (t', c) →
      ∃ f, s.tryInPlace complaint snapshot reps deeper t = (t', .ok f) ∧ f.StandsFor c) ∧
    ∀ e, s.tryRepairs base complaint reps deeper = .error e →
      ∃ t', s.tryInPlace complaint snapshot reps deeper t = (t', .error e) := by
  induction reps generalizing snapshot deeper t with
  | nil =>
    refine ⟨fun t' c h => ?_, fun e h => ?_⟩
    · cases h
    · cases h
      exact ⟨t, rfl⟩
  | cons rep rest ih =>
    have hbase : snapshot.getD t = base := hfirst (by simp)
    have hkept : rest ≠ [] → (if rest.isEmpty then none else snapshot) = some base := by
      intro hrest
      rw [if_neg (by simpa using hrest)]
      have hpos := List.length_pos_iff.mpr hrest
      exact hmore (by rw [List.length_cons]; omega)
    obtain ⟨hok, herror⟩ := repairInPlace_of_repair (s := s) base rep
    rw [tryRepairs, tryInPlace, hbase]
    cases hrep : s.repair base rep with
    | ok t₁ =>
      rw [hok t₁ hrep]
      refine ⟨fun t' c h => ?_, fun e h => ?_⟩
      · cases h
        exact ⟨_, rfl, rfl, rfl, rfl, rfl, hkept⟩
      · cases h
    | error e₁ =>
      obtain ⟨t₁, hchanged⟩ := herror e₁ hrep
      rw [hchanged]
      refine ih _ t₁ (fun hrest => ?_) fun hlength => ?_
      · rw [hkept hrest, Option.getD_some]
      · exact hkept (List.ne_nil_of_length_pos (by omega))

theorem unwindInPlace_of_unwind {e : Failure} {forks : List Fork} {stack : List ChoicePoint}
    (hstack : List.Forall₂ Fork.StandsFor forks stack) (t : Trial) :
    (∀ t' stack', s.unwind e stack = .ok (t', stack') →
      ∃ forks', s.unwindInPlace e forks t = .ok (t', forks') ∧
        List.Forall₂ Fork.StandsFor forks' stack') ∧
    ∀ e', s.unwind e stack = .error e' → s.unwindInPlace e forks t = .error e' := by
  induction hstack generalizing e t with
  | nil =>
    refine ⟨fun t' stack' h => ?_, fun e' h => ?_⟩
    · cases h
    · cases h
      rfl
  | @cons f c forks stack hfork hbelow ih =>
    have hfirst : c.untried ≠ [] → f.snapshot.getD t = c.base := by
      intro hrest
      rw [hfork.snapshot (hfork.untried ▸ hrest), Option.getD_some]
    have hmore : c.untried.length > 1 → f.snapshot = some c.base := by
      intro hlength
      exact hfork.snapshot (hfork.untried ▸ List.ne_nil_of_length_pos (by omega))
    obtain ⟨hok, herror⟩ :=
      tryInPlace_of_tryRepairs (s := s) c.complaint (c.noted e) t hfirst hmore
    rw [unwind, unwindInPlace, hfork.complaint, hfork.untried, hfork.noted]
    cases htry : s.tryRepairs c.base c.complaint c.untried (c.noted e) with
    | ok found =>
      obtain ⟨f', htried, hf'⟩ := hok found.1 found.2 htry
      rw [htried]
      refine ⟨fun t' stack' h => ?_, fun e' h => ?_⟩
      · cases h
        exact ⟨_, rfl, .cons hf' hbelow⟩
      · cases h
    | error e₁ =>
      obtain ⟨t₁, htried⟩ := herror e₁ htry
      rw [htried]
      exact ih t₁

theorem advanceInPlace_of_advance {v : Violation} {forks : List Fork} {stack : List ChoicePoint}
    (hstack : List.Forall₂ Fork.StandsFor forks stack) :
    (∀ t' stack', s.advance r t v stack = .ok (t', stack') →
      ∃ forks', s.advanceInPlace r t v forks = .ok (t', forks') ∧
        List.Forall₂ Fork.StandsFor forks' stack') ∧
    ∀ e, s.advance r t v stack = .error e → s.advanceInPlace r t v forks = .error e := by
  let reps := s.repairs r t v
  let snapshot := if reps.length > 1 then some t else none
  have hfirst : reps ≠ [] → snapshot.getD t = t := by
    intro _
    dsimp only [snapshot]
    split
    · rfl
    · rfl
  have hmore : reps.length > 1 → snapshot = some t := fun hlength => if_pos hlength
  obtain ⟨hok, herror⟩ :=
    tryInPlace_of_tryRepairs (s := s) (s.complaint r t v) none t hfirst hmore
  rw [advance, advanceInPlace]
  cases htry : s.tryRepairs t (s.complaint r t v) (s.repairs r t v) none with
  | ok found =>
    obtain ⟨f, htried, hf⟩ := hok found.1 found.2 htry
    simp only [reps, snapshot] at htried
    simp only [htried]
    refine ⟨fun t' stack' h => ?_, fun e h => ?_⟩
    · cases h
      exact ⟨_, rfl, .cons hf hstack⟩
    · cases h
  | error e₁ =>
    obtain ⟨t₁, htried⟩ := herror e₁ htry
    simp only [reps, snapshot] at htried
    simp only [htried]
    exact unwindInPlace_of_unwind hstack t₁

theorem settleInPlace_eq {left : Nat} {forks : List Fork} {stack : List ChoicePoint}
    (hstack : List.Forall₂ Fork.StandsFor forks stack) :
    s.settleInPlace r left t forks = s.settleFrom r left t stack := by
  -- the forks stand for the choice points after every step
  induction left generalizing t forks stack with
  | zero => rfl
  | succ left ih =>
    rw [settleInPlace, settleFrom]
    cases hviolation : s.firstViolation? t with
    | none => rfl
    | some v =>
      obtain ⟨hok, herror⟩ := advanceInPlace_of_advance (s := s) (r := r) (t := t) (v := v) hstack
      cases hadvance : s.advance r t v stack with
      | ok next =>
        obtain ⟨forks', hforks, hstack'⟩ := hok next.1 next.2 hadvance
        simp only [hadvance, hforks]
        exact ih hstack'
      | error e => simp only [hadvance, herror e hadvance]

theorem settle_eq_settleFrom (r : Rules) (t : Trial) (left : Nat) :
    s.settle r t left = s.settleFrom r left t [] := settleInPlace_eq .nil

end Search

end Depsolve
