import Depsolve.Proofs.Solver.Sights
import Depsolve.Proofs.Solver.Step
/-!
# What a run can show

Whatever is seen of a run was reached by steps of the jobs, and a violation that is seen is the
first one of its trial.
-/
namespace Depsolve

open Relation

namespace Search

variable {s : Search} {r : Rules} {job : Job} {t t' t₀ : Trial} {left : Nat} {x : Sight}

variable (s r t₀) in
/-- What a search that began with `t₀` can come to see. -/
inductive Witnessed : Sight → Prop
  | choicePoint {t : Trial} {v : Violation} (ht : ReflTransGen (s.RepairStep r) t₀ t)
      (hv : s.firstViolation? t = some v) : Witnessed (.choicePoint r t v)
  | removal {t : Trial} {v : Violation} {id : PackageId}
      (ht : ReflTransGen (s.RepairStep r) t₀ t) (hv : s.firstViolation? t = some v)
      (hrep : .remove id ∈ s.repairs r t v) : Witnessed (.removal t id)
  | settled {t : Trial} (ht : ReflTransGen (s.RepairStep r) t₀ t)
      (hnone : s.firstViolation? t = none) : Witnessed (.settled t)
  | gaveUp {t : Trial} (ht : ReflTransGen (s.RepairStep r) t₀ t) : Witnessed (.gaveUp t)

/-- Each repair is carried out on the trial in which its violation was found, whatever the failed
ones have made of the working trial. -/
theorem eq_removal_of_mem_trySights (base : Trial) {reps : List Repair}
    {snapshot : Option Trial} (hfirst : reps ≠ [] → snapshot.getD t = base)
    (hmore : reps.length > 1 → snapshot = some base) (hx : x ∈ s.trySights snapshot reps t) :
    ∃ id, .remove id ∈ reps ∧ x = .removal base id := by
  induction reps generalizing snapshot t with
  | nil => cases hx
  | cons rep rest ih =>
    rw [trySights, hfirst (by simp)] at hx
    rcases List.mem_append.mp hx with hx | hx
    · cases rep with
      | remove id => exact ⟨id, List.mem_cons_self, List.mem_singleton.mp hx⟩
      | add id => cases hx
    · have hkept : rest ≠ [] → (if rest.isEmpty then none else snapshot) = some base := by
        intro hrest
        rw [if_neg (by simpa using hrest)]
        have hpos := List.length_pos_iff.mpr hrest
        exact hmore (by rw [List.length_cons]; omega)
      split at hx
      · cases hx
      · obtain ⟨id, hid, rfl⟩ := ih (fun hrest => by rw [hkept hrest, Option.getD_some])
          (fun hlength => hkept (List.ne_nil_of_length_pos (by omega))) hx
        exact ⟨id, List.mem_cons_of_mem _ hid, rfl⟩

theorem witnessed_of_mem_unwindSights {e : Failure} {forks : List Fork}
    {stack : List ChoicePoint} (hstack : List.Forall₂ Fork.StandsFor forks stack)
    (hopen : ∀ c ∈ stack, s.Open r t₀ c) (hx : x ∈ s.unwindSights e forks t) :
    s.Witnessed r t₀ x := by
  induction hstack generalizing e t with
  | nil => cases hx
  | @cons f c forks stack hfork _ ih =>
    rw [unwindSights] at hx
    rcases List.mem_append.mp hx with hx | hx
    · obtain ⟨id, hid, rfl⟩ := eq_removal_of_mem_trySights c.base
        (fun hrest => by rw [hfork.snapshot hrest, Option.getD_some])
        (fun hlength => hfork.snapshot (List.ne_nil_of_length_pos (by omega))) hx
      obtain ⟨hbase, v, hv, hreps⟩ := hopen c List.mem_cons_self
      exact .removal hbase hv (hreps _ (hfork.untried ▸ hid))
    · split at hx
      · cases hx
      · exact ih (fun c' hc' => hopen c' (List.mem_cons_of_mem _ hc')) hx

theorem witnessed_of_mem_advanceSights {v : Violation} {forks : List Fork}
    {stack : List ChoicePoint} (hstack : List.Forall₂ Fork.StandsFor forks stack)
    (ht : ReflTransGen (s.RepairStep r) t₀ t) (hv : s.firstViolation? t = some v)
    (hopen : ∀ c ∈ stack, s.Open r t₀ c) (hx : x ∈ s.advanceSights r t v forks) :
    s.Witnessed r t₀ x := by
  rw [advanceSights] at hx
  rcases List.mem_append.mp hx with hx | hx
  · obtain ⟨id, hid, rfl⟩ := eq_removal_of_mem_trySights t
      (fun _ => by split <;> rfl) (fun hlength => if_pos hlength) hx
    exact .removal ht hv hid
  · split at hx
    · cases hx
    · exact witnessed_of_mem_unwindSights hstack hopen hx

theorem witnessed_of_mem_settleSights {forks : List Fork} {stack : List ChoicePoint}
    (hstack : List.Forall₂ Fork.StandsFor forks stack) (ht : ReflTransGen (s.RepairStep r) t₀ t)
    (hopen : ∀ c ∈ stack, s.Open r t₀ c) (hx : x ∈ s.settleSights r left t forks) :
    s.Witnessed r t₀ x := by
  -- the forks stand for choice points whose trials can be reached from `t₀`
  induction left generalizing t forks stack with
  | zero =>
    cases List.mem_singleton.mp hx
    exact .gaveUp ht
  | succ left ih =>
    rw [settleSights] at hx
    cases hviolation : s.firstViolation? t with
    | none =>
      rw [hviolation] at hx
      cases List.mem_singleton.mp hx
      exact .settled ht hviolation
    | some v =>
      rw [hviolation] at hx
      rcases List.mem_cons.mp hx with rfl | hx
      · exact .choicePoint ht hviolation
      · rcases List.mem_append.mp hx with hx | hx
        · exact witnessed_of_mem_advanceSights hstack ht hviolation hopen hx
        · obtain ⟨hok, herror⟩ :=
            advanceInPlace_of_advance (s := s) (r := r) (t := t) (v := v) hstack
          cases hadvance : s.advance r t v stack with
          | ok next =>
            obtain ⟨forks', hforks, hstack'⟩ := hok next.1 next.2 hadvance
            rw [hforks] at hx
            obtain ⟨ht', hopen'⟩ := advance_eq_ok ht hviolation hopen hadvance
            exact ih hstack' ht' hopen' hx
          | error e =>
            rw [herror e hadvance] at hx
            cases hx

variable (s r job) in
/-- What a job that begins with the trial `t` can come to see: the searches begin in trials that it
reaches by steps, and only an erase lets dependents go. -/
def Shows (t : Trial) (x : Sight) : Prop :=
  ∃ t₁ b, ReflTransGen (s.Step r job) t t₁ ∧ (b = true → job.kind = .erase) ∧
    s.Witnessed { r with eraseDependents := b } t₁ x

theorem Shows.of_steps (hsteps : ReflTransGen (s.Step r job) t t') (h : s.Shows r job t' x) :
    s.Shows r job t x := by
  obtain ⟨t₁, b, hrest, hb, hwitnessed⟩ := h
  exact ⟨t₁, b, hsteps.trans hrest, hb, hwitnessed⟩

theorem shows_of_mem_settleSights (hr : r.eraseDependents = false)
    (hsteps : ReflTransGen (s.Step r job) t t') (hx : x ∈ s.settleSights r left t' []) :
    s.Shows r job t x :=
  ⟨t', r.eraseDependents, hsteps, fun h => absurd (hr ▸ h) (by decide),
    witnessed_of_mem_settleSights .nil .refl (by simp) hx⟩

theorem shows_of_mem_chooseFirstSights {reason : Option Reason} {ids : List PackageId}
    (hr : r.eraseDependents = false) (hwanted : ∀ id ∈ ids, s.Wanted r job t id)
    (hx : x ∈ s.chooseFirstSights r reason t ids left) : s.Shows r job t x := by
  induction ids generalizing left with
  | nil => cases hx
  | cons id ids ih =>
    obtain ⟨hid, hrest⟩ := List.forall_mem_cons.mp hwanted
    rw [chooseFirstSights] at hx
    rcases List.mem_append.mp hx with hx | hx
    · rw [chooseSights] at hx
      split at hx
      · cases hx
      · rename_i t₁ hadd
        exact shows_of_mem_settleSights hr (steps_of_pinned_add reason hid hadd).1 hx
    · split at hx
      · cases hx
      · cases hx
      · exact ih hrest hx

theorem shows_of_mem_forEachSights {candidates : Trial → PackageId → List PackageId}
    {act : Trial → PackageId → List PackageId → Nat → Attempt}
    {sights : Trial → PackageId → List PackageId → Nat → List Sight} {ids : List PackageId}
    (hact : ∀ id ∈ ids, ∀ t t' left, id ∈ t.present →
      (act t id (candidates t id) left).result = .ok t' → ReflTransGen (s.Step r job) t t')
    (hsights : ∀ id ∈ ids, ∀ t left, id ∈ t.present → x ∈ sights t id (candidates t id) left →
      s.Shows r job t x)
    (hx : x ∈ forEachSights candidates act sights ids t left) : s.Shows r job t x := by
  induction ids generalizing t left with
  | nil => cases hx
  | cons id ids ih =>
    obtain ⟨hacts, hactsRest⟩ := List.forall_mem_cons.mp hact
    obtain ⟨hshows, hshowsRest⟩ := List.forall_mem_cons.mp hsights
    rw [forEachSights] at hx
    split at hx
    · exact ih hactsRest hshowsRest hx
    · rename_i hvisit
      have hpresent : id ∈ t.present := mem_of_visited hvisit
      rcases List.mem_append.mp hx with hx | hx
      · exact hshows t left hpresent hx
      · split at hx
        · rename_i t₁ hok
          exact (ih hactsRest hshowsRest hx).of_steps (hacts t t₁ left hpresent hok)
        · cases hx

theorem shows_of_mem_installSights (hr : r.eraseDependents = false) (hkind : job.kind = .install)
    (hx : x ∈ s.installSights r job t left) : s.Shows r job t x := by
  rw [installSights] at hx
  split at hx
  · cases hx
  · rename_i hnone
    have habsent : ∀ c ∈ s.candidates job, c ∉ t.present := List.find?_eq_none.mp hnone
    exact shows_of_mem_chooseFirstSights hr
      (fun id hid => .chosen hkind (mem_installOrder hid).1 habsent) hx

theorem shows_of_mem_eraseSights (hkind : job.kind = .erase)
    (hguarded : ∀ id ∈ s.candidates job, id ∉ s.guarded)
    (hx : x ∈ s.eraseSights r job t left) : s.Shows r job t x := by
  rw [eraseSights] at hx
  split at hx
  · cases hx
  · split at hx
    · cases hx
    · rename_i bare htake
      obtain ⟨hpinned, rfl⟩ := takeOff_eq_ok htake
      exact ⟨_, true, steps_of_targets hkind hguarded hpinned, fun _ => hkind,
        witnessed_of_mem_settleSights .nil .refl (by simp) hx⟩

theorem shows_of_mem_successorSights {old : PackageId} (hr : r.eraseDependents = false)
    (hold : old ∈ s.initial) (hpresent : old ∈ t.present)
    (hx : x ∈ s.chooseFirstSights r none t (s.successors r job t old) left) :
    s.Shows r job t x :=
  shows_of_mem_chooseFirstSights hr (fun _ hid => .successor hold hpresent hid) hx

theorem shows_of_mem_moveSights (hr : r.eraseDependents = false)
    (hx : x ∈ s.moveSights r job t (s.successors r job) left) : s.Shows r job t x := by
  exact shows_of_mem_forEachSights
    (fun _ hold _ _ _ => replaceOrKeep_steps hr (mem_of_mem_movable hold).2)
    (fun _ hold _ _ => shows_of_mem_successorSights hr (mem_of_mem_movable hold).2) hx

theorem shows_of_mem_downgradeSights (hr : r.eraseDependents = false)
    (hkind : job.kind = .downgrade) (hx : x ∈ s.downgradeSights r job t left) :
    s.Shows r job t x := by
  rw [downgradeSights, ← successors_of_downgrade (r := r) hkind] at hx
  split at hx
  · cases hx
  · exact shows_of_mem_forEachSights
      (fun _ hold _ _ _ => chooseSuccessor_steps hr (mem_of_mem_movable hold).2)
      (fun _ hold _ _ => shows_of_mem_successorSights hr (mem_of_mem_movable hold).2) hx

theorem shows_of_mem_carryOutSights (hr : r.eraseDependents = false)
    (hguarded : job.kind = .erase → ∀ id ∈ s.candidates job, id ∉ s.guarded)
    (hx : x ∈ s.carryOutSights r job t left) : s.Shows r job t x := by
  have hmove : ∀ candidatesOf, s.successors r job = candidatesOf →
      x ∈ s.moveSights r job t candidatesOf left → s.Shows r job t x := by
    rintro _ rfl
    exact shows_of_mem_moveSights hr
  cases hkind : job.kind <;> simp only [carryOutSights, hkind] at hx
  case install => exact shows_of_mem_installSights hr hkind hx
  case erase => exact shows_of_mem_eraseSights hkind (hguarded hkind) hx
  case upgrade => exact hmove _ (successors_of_upgrade (.inl hkind)) hx
  case upgradeAll => exact hmove _ (successors_of_upgrade (.inr hkind)) hx
  case distroSync => exact hmove _ (successors_of_sync (.inl hkind)) hx
  case distroSyncAll => exact hmove _ (successors_of_sync (.inr hkind)) hx
  case downgrade => exact shows_of_mem_downgradeSights hr hkind hx
  case reasonChange => cases hx
  case guard => cases hx

theorem Shows.steps (h : s.Shows r job t x) : ReflTransGen (s.Step r job) t x.trial := by
  obtain ⟨t₁, b, hsteps, hb, hwitnessed⟩ := h
  have hrepairs : ∀ t₂, ReflTransGen (s.RepairStep { r with eraseDependents := b }) t₁ t₂ →
      ReflTransGen (s.Step r job) t t₂ := by
    have hstep : s.RepairStep { r with eraseDependents := b } ≤ ReflTransGen (s.Step r job) :=
      fun _ _ hstep => hstep.steps hb
    exact fun _ ht => hsteps.trans (reflTransGen_closed hstep _ _ ht)
  cases hwitnessed with
  | choicePoint ht | removal ht | settled ht | gaveUp ht => exact hrepairs _ ht

end Search

end Depsolve
