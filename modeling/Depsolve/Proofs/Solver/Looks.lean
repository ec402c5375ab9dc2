import Depsolve.Proofs.Solver.Exhaustion
import Depsolve.Proofs.Solver.Sights
/-!
# Paying for looks

An attempt pays for each look that its run shows, and one that does not run out of budget would go
the same way with more.
-/
namespace Depsolve

/-- The attempt that a search for a trial without violations amounts to. -/
def Settlement.attempt : Settlement → Attempt
  | .settled t left => .done t left
  | .stuck e left => .fail e left
  | .overBudget => .fail .stepLimit 0

/-- An attempt to which some budget is given back. -/
def Attempt.grant (a : Attempt) (more : Nat) : Attempt := { a with left := a.left + more }

theorem Attempt.ok_or_error {a : Attempt} (h : a.failure? ≠ some .stepLimit) :
    (∃ t, a.result = .ok t) ∨ ∃ e, a.result = .error e ∧ e ≠ .stepLimit := by
  cases hresult : a.result with
  | ok t => exact .inl ⟨t, rfl⟩
  | error e =>
    refine .inr ⟨e, rfl, ?_⟩
    rintro rfl
    exact h (by rw [failure?, hresult])

/-- With the budget `left` an attempt shows `seen`. Its looks are one more than the budget allows
where it runs out, and otherwise paid for; then any larger budget has the same result, and what
is added to it is left. -/
structure Metered (f : Nat → Attempt) (left : Nat) (seen : List Sight) : Prop where
  exceeds : (f left).failure? = some .stepLimit → seen.countP Sight.isLook = left + 1
  within : (f left).failure? ≠ some .stepLimit →
    seen.countP Sight.isLook + (f left).left = left
  steady : (f left).failure? ≠ some .stepLimit → ∀ more, f (left + more) = (f left).grant more

namespace Metered

variable {f : Nat → Attempt} {left : Nat} {seen : List Sight} {t : Trial} {e : Failure}

theorem le (h : Metered f left seen) : seen.countP Sight.isLook ≤ left + 1 := by
  by_cases hover : (f left).failure? = some .stepLimit
  · exact Nat.le_of_eq (h.exceeds hover)
  · have := h.within hover
    omega

theorem lt_iff (h : Metered f left seen) :
    left < seen.countP Sight.isLook ↔ (f left).failure? = some .stepLimit := by
  constructor
  · intro hlt
    by_contra hwithin
    have := h.within hwithin
    omega
  · intro hover
    have := h.exceeds hover
    omega

theorem idle {result : Except Failure Trial} {notes : List Note}
    (h : result ≠ .error .stepLimit) : Metered (fun left => ⟨result, left, notes⟩) left [] := by
  have hfailure : Attempt.failure? ⟨result, left, notes⟩ ≠ some .stepLimit := by
    intro hfailure
    exact h (Attempt.result_eq_error hfailure)
  exact ⟨fun hover => absurd hover hfailure, fun _ => Nat.zero_add left, fun _ _ => rfl⟩

theorem done : Metered (.done t) left [] := idle (by simp)

theorem fail (he : e ≠ .stepLimit) : Metered (.fail e) left [] := idle (by simpa using he)

theorem annotate (h : Metered f left seen) (notes : List Note) :
    Metered (fun left => { f left with notes := notes ++ (f left).notes }) left seen := by
  refine ⟨h.exceeds, h.within, fun hwithin more => ?_⟩
  rw [h.steady hwithin more]
  rfl

/-- `g` goes on from an attempt within its budget, with what is left. -/
theorem andThen {g : Nat → Attempt} {later : List Sight} (h : Metered f left seen)
    (hover : (f left).failure? = some .stepLimit →
      (g left).failure? = some .stepLimit ∧ later = [])
    (hwithin : (f left).failure? ≠ some .stepLimit →
      ∃ rest, Metered rest (f left).left later ∧ ∀ more, f (left + more) = (f left).grant more →
        g (left + more) = rest ((f left).left + more)) :
    Metered g left (seen ++ later) := by
  by_cases hfirst : (f left).failure? = some .stepLimit
  · obtain ⟨hfailure, rfl⟩ := hover hfirst
    rw [List.append_nil]
    exact ⟨fun _ => h.exceeds hfirst, fun hnot => absurd hfailure hnot,
      fun hnot => absurd hfailure hnot⟩
  · have hpaid := h.within hfirst
    obtain ⟨rest, hrest, hgoes⟩ := hwithin hfirst
    have hnow : g left = rest (f left).left := hgoes 0 rfl
    refine ⟨fun hfailure => ?_, fun hfailure => ?_, fun hfailure more => ?_⟩
    · have := hrest.exceeds (hnow ▸ hfailure)
      rw [List.countP_append]
      omega
    · have := hrest.within (hnow ▸ hfailure)
      rw [List.countP_append, hnow]
      omega
    · rw [hgoes more (h.steady hfirst more), hnow]
      exact hrest.steady (hnow ▸ hfailure) more

end Metered

namespace Search

variable {s : Search} {r : Rules} {job : Job} {t : Trial} {left : Nat} {reason : Option Reason}

theorem settleInPlace_metered {stack : List Fork} :
    Metered (fun left => (s.settleInPlace r left t stack).attempt) left
      (s.settleSights r left t stack) := by
  induction left generalizing t stack with
  | zero => exact ⟨fun _ => rfl, fun h => absurd rfl h, fun h => absurd rfl h⟩
  | succ left ih =>
    have hshift : ∀ more, left + 1 + more = left + more + 1 := fun more => Nat.add_right_comm ..
    cases hviolation : s.firstViolation? t with
    | none =>
      refine ⟨?_, ?_, ?_⟩ <;> simp only [hshift, settleInPlace, settleSights, hviolation]
      · intro hover
        cases hover
      · exact fun _ => Nat.add_comm ..
      · exact fun _ _ => rfl
    | some v =>
      cases hadvance : s.advanceInPlace r t v stack with
      | ok next =>
        have hnext : Metered (fun left => (s.settleInPlace r left next.1 next.2).attempt) left
            (s.settleSights r left next.1 next.2) := ih
        refine ⟨?_, ?_, ?_⟩ <;>
          simp only [hshift, settleInPlace, settleSights, hviolation, hadvance]
        · intro hover
          rw [countP_choicePoint, hnext.exceeds hover]
        · intro hwithin
          have := hnext.within hwithin
          rw [countP_choicePoint]
          omega
        · exact hnext.steady
      | error e =>
        have he : e ≠ .stepLimit := by
          rintro rfl
          exact advanceInPlace_ne_stepLimit hadvance
        refine ⟨?_, ?_, ?_⟩ <;>
          simp only [hshift, settleInPlace, settleSights, hviolation, hadvance]
        · exact fun hover => absurd (Option.some.inj hover) he
        · intro _
          rw [countP_choicePoint, List.countP_nil]
          exact Nat.add_comm ..
        · exact fun _ _ => rfl

theorem bind_eq_error {α β : Type} {x : Except Failure α} {f : α → Except Failure β} {e : Failure}
    (h : x >>= f = .error e) : x = .error e ∨ ∃ a, f a = .error e := by
  cases x with
  | error e₁ =>
    cases h
    exact .inl rfl
  | ok a => exact .inr ⟨a, h⟩

theorem exists_of_foldlM_eq_error {f : Trial → PackageId → Except Failure Trial} {e : Failure}
    {ids : List PackageId} (h : ids.foldlM f t = .error e) : ∃ t id, f t id = .error e := by
  induction ids generalizing t with
  | nil => cases h
  | cons id ids ih =>
    rcases bind_eq_error h with hfirst | ⟨t₁, hrest⟩
    · exact ⟨t, id, hfirst⟩
    · exact ih hrest

theorem add_eq_error {id : PackageId} {e : Failure} (h : s.add t id = .error e) :
    e = .forbidden id ∨ ∃ other, e = .pinned other ∨ e = .guarded other := by
  rw [add] at h
  split at h
  · cases h
  · split at h
    · cases h
      exact .inl rfl
    · right
      rcases bind_eq_error h with hbuilds | ⟨t₁, hrest⟩
      · obtain ⟨t₁, other, hbuild⟩ := exists_of_foldlM_eq_error hbuilds
        rw [displaceBuild] at hbuild
        split at hbuild
        · cases hbuild
          exact ⟨other, .inl rfl⟩
        · cases hbuild
      · rcases bind_eq_error hrest with hobsoletes | ⟨t₂, hpure⟩
        · obtain ⟨t₂, other, hobsolete⟩ := exists_of_foldlM_eq_error hobsoletes
          rw [displaceObsolete] at hobsolete
          split at hobsolete
          · cases hobsolete
            exact ⟨other, .inl rfl⟩
          · split at hobsolete
            · cases hobsolete
              exact ⟨other, .inr rfl⟩
            · cases hobsolete
        · cases hpure

theorem add_ne_stepLimit {id : PackageId} : s.add t id ≠ .error .stepLimit := by
  intro h
  rcases add_eq_error h with heq | ⟨other, heq | heq⟩ <;> cases heq

theorem takeOff_eq_error {ids : List PackageId} {e : Failure} (h : takeOff t ids = .error e) :
    ∃ id, e = .pinned id := by
  induction ids generalizing t with
  | nil => cases h
  | cons id ids ih =>
    rw [takeOff] at h
    split at h
    · cases h
      exact ⟨id, rfl⟩
    · exact ih h

theorem takeOff_ne_stepLimit {ids : List PackageId} : takeOff t ids ≠ .error .stepLimit := by
  intro h
  obtain ⟨id, heq⟩ := takeOff_eq_error h
  cases heq

theorem choose_metered (id : PackageId) :
    Metered (s.choose r reason t id) left (s.chooseSights r reason t id left) := by
  cases hadd : s.add (pin reason t id) id with
  | error e =>
    have he : e ≠ .stepLimit := by
      rintro rfl
      exact add_ne_stepLimit hadd
    have hchoose : s.choose r reason t id = .fail e := by
      funext left
      rw [choose_eq, hadd]
    rw [hchoose, chooseSights, hadd]
    exact .fail he
  | ok t₁ =>
    have hchoose : s.choose r reason t id = fun left => (s.settle r t₁ left).attempt := by
      funext left
      rw [choose_eq, hadd]
      rfl
    rw [hchoose, chooseSights, hadd]
    exact settleInPlace_metered

theorem chooseFirst_metered {ids : List PackageId} {first : Option Failure}
    (hfirst : first ≠ some .stepLimit) :
    Metered (s.chooseFirst r reason t ids first) left
      (s.chooseFirstSights r reason t ids left) := by
  induction ids generalizing first left with
  | nil =>
    refine .fail fun h => ?_
    cases first with
    | none => cases h
    | some e => exact hfirst (congrArg some h)
  | cons id ids ih =>
    refine (choose_metered id).andThen (fun hover => ?_) fun hwithin => ?_
    · simp only [chooseFirst, Attempt.result_eq_error hover, and_true]
      rfl
    · rcases Attempt.ok_or_error hwithin with ⟨t₁, hresult⟩ | ⟨e, hresult, he⟩
      · rw [hresult]
        refine ⟨Attempt.done t₁, .done, fun more hmore => ?_⟩
        simp only [chooseFirst, hmore, Attempt.grant, hresult]
      · have hnext : (first <|> some e) ≠ some .stepLimit := by
          cases first with
          | none => exact fun h => he (Option.some.inj h)
          | some e₁ => exact hfirst
        rw [hresult]
        cases e
        case stepLimit => exact absurd rfl he
        all_goals
          refine ⟨_, ih hnext, fun more hmore => ?_⟩
          simp only [chooseFirst, hmore, Attempt.grant, hresult]

theorem replaceOrKeep_metered {old : PackageId} {ids : List PackageId} :
    Metered (s.replaceOrKeep r t old ids) left (s.chooseFirstSights r none t ids left) := by
  have hfirst : Metered (s.chooseFirst r none t ids none) left
      (s.chooseFirstSights r none t ids left) := chooseFirst_metered (by simp)
  let notes := (s.chooseFirst r none t ids none left).notes
  -- whatever becomes of a failure, it costs no further look
  rw [← List.append_nil (s.chooseFirstSights r none t ids left)]
  refine hfirst.andThen (fun hover => ?_) fun hwithin => ?_
  · simp only [replaceOrKeep, Attempt.result_eq_error hover, and_true]
    exact hover
  · rcases Attempt.ok_or_error hwithin with ⟨t₁, hresult⟩ | ⟨e, hresult, he⟩
    · refine ⟨fun left => ⟨.ok t₁, left, notes⟩, .idle (by simp), fun more hmore => ?_⟩
      simp only [replaceOrKeep, hmore, Attempt.grant, hresult, notes]
    · cases hbest : r.best with
      | true =>
        refine ⟨fun left => ⟨.error e, left, notes⟩, .idle (by simpa using he), ?_⟩
        intro more hmore
        simp only [replaceOrKeep, hmore, Attempt.grant, hresult, hbest, if_true, notes]
      | false =>
        refine ⟨fun left => ⟨.ok t, left, notes ++ [.keeping (s.get old)]⟩, .idle (by simp), ?_⟩
        intro more hmore
        simp only [replaceOrKeep, hmore, Attempt.grant, hresult, hbest, Bool.false_eq_true,
          if_false, notes]

theorem forEach_metered {candidates : Trial → PackageId → List PackageId}
    {act : Trial → PackageId → List PackageId → Nat → Attempt}
    {sights : Trial → PackageId → List PackageId → Nat → List Sight} {ids : List PackageId}
    (hact : ∀ t id order left, Metered (act t id order) left (sights t id order left)) :
    Metered (forEach candidates act ids t) left
      (forEachSights candidates act sights ids t left) := by
  induction ids generalizing t left with
  | nil => exact .done
  | cons id ids ih =>
    by_cases hskip : (!t.present.contains id || (candidates t id).isEmpty) = true
    · have hrest : forEach candidates act (id :: ids) t = forEach candidates act ids t := by
        funext left
        rw [forEach, if_pos hskip]
      rw [hrest, forEachSights, if_pos hskip]
      exact ih
    · rw [forEachSights, if_neg hskip]
      refine (hact t id (candidates t id) left).andThen (fun hover => ?_) fun hwithin => ?_
      · simp only [forEach, if_neg hskip, Attempt.result_eq_error hover, Attempt.andThen, and_true]
        rfl
      · let a := act t id (candidates t id) left
        rcases Attempt.ok_or_error hwithin with ⟨t₁, hresult⟩ | ⟨e, hresult, he⟩
        · rw [hresult]
          refine ⟨_, ih.annotate a.notes, fun more hmore => ?_⟩
          simp only [forEach, if_neg hskip, hmore, Attempt.grant, Attempt.andThen, hresult, a]
        · rw [hresult]
          refine ⟨fun left => ⟨.error e, left, a.notes⟩, .idle (by simpa using he), ?_⟩
          intro more hmore
          simp only [forEach, if_neg hskip, hmore, Attempt.grant, Attempt.andThen, hresult, a]

theorem install_metered : Metered (s.install r job t) left (s.installSights r job t left) := by
  rw [show s.install r job t = _ from funext install_eq, installSights]
  cases (s.candidates job).find? t.present.contains with
  | some id => exact .done
  | none =>
    cases hempty : (s.installOrder r job t).isEmpty with
    | true =>
      rw [List.isEmpty_iff.mp hempty]
      exact .fail (by simp)
    | false => exact chooseFirst_metered (by simp)

variable (s r) in
/-- How an erase goes on once its targets are off. -/
def afterTakingOff (t : Trial) (a : Attempt) : Attempt :=
  match a.result with
  | .error e => .fail e a.left
  | .ok settled =>
    if r.cleanDeps then
      let (t, notes) := s.cleanDeps settled (t.present.diff settled.present).toList
      { result := .ok t, left := a.left, notes }
    else .done settled a.left

theorem erase_of_takeOff {bare : Trial} (hsome : (s.targets job t).isEmpty = false)
    (htake : takeOff t (s.targets job t) = .ok bare) :
    s.erase r job t left = s.afterTakingOff r t
      (s.settle { r with eraseDependents := true } bare left).attempt := by
  rw [targets] at hsome htake
  simp only [erase, hsome, htake]
  cases s.settle { r with eraseDependents := true } bare left <;> rfl

theorem afterTakingOff_metered {f : Nat → Attempt} {seen : List Sight} (h : Metered f left seen) :
    Metered (fun left => s.afterTakingOff r t (f left)) left seen := by
  rw [← List.append_nil seen]
  refine h.andThen (fun hover => ?_) fun hwithin => ?_
  · simp only [afterTakingOff, Attempt.result_eq_error hover, and_true]
    rfl
  · rcases Attempt.ok_or_error hwithin with ⟨t₁, hresult⟩ | ⟨e, hresult, he⟩
    · cases hclean : r.cleanDeps with
      | true =>
        let cleaned := s.cleanDeps t₁ (t.present.diff t₁.present).toList
        refine ⟨fun left => ⟨.ok cleaned.1, left, cleaned.2⟩, .idle (by simp), ?_⟩
        intro more hmore
        simp only [afterTakingOff, hmore, Attempt.grant, hresult, hclean, if_true, cleaned]
      | false =>
        refine ⟨Attempt.done t₁, .done, fun more hmore => ?_⟩
        simp only [afterTakingOff, hmore, Attempt.grant, hresult, hclean, Bool.false_eq_true,
          if_false]
    · refine ⟨Attempt.fail e, .fail he, fun more hmore => ?_⟩
      simp only [afterTakingOff, hmore, Attempt.grant, hresult]

theorem erase_metered : Metered (s.erase r job t) left (s.eraseSights r job t left) := by
  cases hempty : (s.targets job t).isEmpty with
  | true =>
    have herase : s.erase r job t = .fail (.notApplicable .noneInstalled) :=
      funext fun left => if_pos hempty
    rw [herase, eraseSights, if_pos hempty]
    exact .fail (by simp)
  | false =>
    simp only [eraseSights, hempty, Bool.false_eq_true, if_false]
    cases htake : takeOff t (s.targets job t) with
    | error e =>
      have herase : s.erase r job t = .fail e := by
        funext left
        rw [targets] at hempty htake
        simp only [erase, hempty, htake]
        rfl
      have he : e ≠ .stepLimit := by
        rintro rfl
        exact takeOff_ne_stepLimit htake
      rw [herase]
      exact .fail he
    | ok bare =>
      have herase : s.erase r job t = fun left => s.afterTakingOff r t
          (s.settle { r with eraseDependents := true } bare left).attempt :=
        funext fun _ => erase_of_takeOff hempty htake
      rw [herase]
      exact afterTakingOff_metered settleInPlace_metered

theorem move_metered {candidatesOf : Trial → PackageId → List PackageId} :
    Metered (s.move r job t candidatesOf) left (s.moveSights r job t candidatesOf left) := by
  by_cases hnone : (job.target != .all && (s.movable job t).isEmpty) = true
  · have hmove : s.move r job t candidatesOf = .fail (.notApplicable .onlyAvailable) := by
      funext left
      simp only [move, if_pos hnone]
    have hids : s.movable job t = [] := List.isEmpty_iff.mp (Bool.and_eq_true_iff.mp hnone).2
    rw [hmove, moveSights, hids]
    exact .fail (by simp)
  · have hmove : s.move r job t candidatesOf =
        forEach candidatesOf (s.replaceOrKeep r) (s.movable job t) t := by
      funext left
      simp only [move, if_neg hnone]
    rw [hmove]
    exact forEach_metered fun _ _ _ _ => replaceOrKeep_metered

theorem downgrade_metered :
    Metered (s.downgrade r job t) left (s.downgradeSights r job t left) := by
  let candidatesOf := s.downgradeCandidates (s.movePool job)
  by_cases hall : ((s.movable job t).all fun id => (candidatesOf t id).isEmpty) = true
  · have hdowngrade : ∃ obstacle, s.downgrade r job t = .fail (.notApplicable obstacle) := by
      by_cases hnone : (job.target != .all && (s.movable job t).isEmpty) = true
      · exact ⟨.onlyAvailable, funext fun left => if_pos hnone⟩
      · exact ⟨.lowestInstalled, funext fun left => (if_neg hnone).trans (if_pos hall)⟩
    obtain ⟨obstacle, hdowngrade⟩ := hdowngrade
    rw [hdowngrade, downgradeSights, if_pos hall]
    exact .fail (by simp)
  · have hnone : ¬(job.target != .all && (s.movable job t).isEmpty) = true := by
      intro hnone
      rw [List.isEmpty_iff.mp (Bool.and_eq_true_iff.mp hnone).2] at hall
      exact hall rfl
    have hdowngrade : s.downgrade r job t =
        forEach candidatesOf (fun t _ order left => s.chooseFirst r none t order none left)
          (s.movable job t) t :=
      funext fun left => (if_neg hnone).trans (if_neg hall)
    rw [hdowngrade, downgradeSights, if_neg hall]
    exact forEach_metered fun _ _ _ _ => chooseFirst_metered (by simp)

theorem changeReason_metered : Metered (s.changeReason job t) left [] := by
  by_cases hnone : ((s.candidates job).filter t.present.contains).isEmpty = true
  · have hchange : s.changeReason job t = .fail (.notApplicable .noneInstalledToMark) :=
      funext fun left => if_pos hnone
    rw [hchange]
    exact .fail (by simp)
  · have hchange : s.changeReason job t = .done _ := funext fun left => if_neg hnone
    rw [hchange]
    exact .done

/-- A job pays for its looks, and one that does not run out of budget does the same with more. -/
theorem carryOut_metered : Metered (s.carryOut r job t) left (s.carryOutSights r job t left) := by
  have hcarryOut : s.carryOut r job t = fun left => s.carryOut r job t left := rfl
  rw [hcarryOut]
  cases hkind : job.kind <;> simp only [carryOut, carryOutSights, hkind]
  case install => exact install_metered
  case erase => exact erase_metered
  case upgrade => exact move_metered
  case upgradeAll => exact move_metered
  case distroSync => exact move_metered
  case distroSyncAll => exact move_metered
  case downgrade => exact downgrade_metered
  case reasonChange => exact changeReason_metered
  case guard => exact .done

/-- A job is charged for what its turn shows, up to the look that the budget does not allow. -/
theorem countP_turnSights {call : Demands} :
    (if (s.turn call t job).failure? = some .stepLimit
      then (s.turnSights call t job).countP Sight.isLook = s.solver.maxSteps + 1
      else (s.turnSights call t job).countP Sight.isLook + (s.turn call t job).left =
        s.solver.maxSteps) := by
  rw [turnSights, List.countP_append, List.countP_singleton]
  split
  · exact carryOut_metered.exceeds ‹_›
  · exact carryOut_metered.within ‹_›

end Search

end Depsolve
