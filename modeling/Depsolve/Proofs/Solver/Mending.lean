import Depsolve.Proofs.Solver.Arrival
import Depsolve.Proofs.Solver.Backtracking
import Mathlib.Logic.Relation
/-!
# Mending a trial

Whatever order the search tries repairs in, a settled trial is reached from the
first one by repairs of first violations and has no violation left.
-/
namespace Depsolve.Search

open Relation

variable {s : Search} {r : Rules} {t t' t₀ : Trial}

variable (s r) in
/-- One repair of the first violation of a trial. -/
inductive RepairStep : Trial → Trial → Prop
  | remove {t : Trial} {v : Violation} {id : PackageId} (hv : s.firstViolation? t = some v)
      (hrep : .remove id ∈ s.repairs r t v) :
      RepairStep t { t with present := t.present.erase id, forbidden := t.forbidden.insert id }
  | add {t t' : Trial} {v : Violation} {id : PackageId} (hv : s.firstViolation? t = some v)
      (hrep : .add id ∈ s.repairs r t v) (hadd : s.add t id = .ok t') : RepairStep t t'

variable (s r) in
/-- Repairs that leave no violation. -/
def Mended (t t' : Trial) : Prop :=
  ReflTransGen (s.RepairStep r) t t' ∧ s.firstViolation? t' = none

theorem removal_eq_allowed {id : PackageId} :
    s.removal r t id = .allowed ↔ (r.allowErasing = true ∨ r.eraseDependents = true) ∧
      id ∈ s.initial ∧ id ∉ t.pinned ∧ id ∉ s.guarded := by
  simp only [removal, ← IdSet.contains_iff_mem]
  cases r.allowErasing <;> cases r.eraseDependents <;> cases s.initial.contains id <;>
    cases t.pinned.contains id <;> cases s.guarded.contains id <;> simp

theorem mem_providers {d : Dependency} {id : PackageId} :
    id ∈ s.providers r t d ↔ id ∈ s.pool.whatProvides d ∧ id ∈ s.pool.considered ∧
      id ∉ t.forbidden ∧ (r.allowDowngrade = true ∨ s.isDowngrade t id = false) := by
  rw [providers, Policy.mem_preferNamed, List.mem_filter]
  simp only [Bool.and_eq_true, Bool.or_eq_true, Bool.not_eq_true', and_assoc]
  exact and_congr_right fun _ => and_congr_right fun _ => and_congr_left fun _ =>
    Bool.eq_false_iff

theorem isDowngrade_iff {id : PackageId} : s.isDowngrade t id = true ↔
    s.isInstallonly id = false ∧ ∃ other < s.pool.size, (s.get other).name = (s.get id).name ∧
      other ∈ t.present ∧ (s.get id).sameArchFamily (s.get other) = true ∧
      (s.get other).evr.newer (s.get id).evr = true := by
  simp only [isDowngrade, Bool.and_eq_true, Bool.not_eq_true', List.any_eq_true,
    Universe.mem_byName, IdSet.contains_iff_mem, and_assoc]
  rfl

theorem removal_of_mem_repairs {v : Violation} {id : PackageId}
    (h : .remove id ∈ s.repairs r t v) : s.removal r t id = .allowed := by
  cases v with
  | missing package d =>
    have hmem : Repair.remove id ∈
        if s.removal r t package = .allowed then [Repair.remove package] else [] := by
      rw [repairs, missingRepairs] at h
      split at h <;> simpa using h
    split at hmem
    · rename_i hallowed
      cases List.mem_singleton.mp hmem
      exact hallowed
    · cases hmem
  | conflict package other =>
    obtain ⟨x, hx, heq⟩ := List.mem_map.mp h
    cases heq
    simpa using (List.mem_filter.mp hx).2

theorem mem_providers_of_mem_repairs {v : Violation} {id : PackageId}
    (h : .add id ∈ s.repairs r t v) : ∃ package d, v = .missing package d ∧
      id ∈ s.providers r t d := by
  cases v with
  | missing package d =>
    refine ⟨package, d, rfl, ?_⟩
    rw [repairs, missingRepairs] at h
    split at h <;> simpa using h
  | conflict package other =>
    obtain ⟨x, -, heq⟩ := List.mem_map.mp h
    cases heq

theorem repairStep_of_repair {v : Violation} {rep : Repair} (hv : s.firstViolation? t = some v)
    (hrep : rep ∈ s.repairs r t v) (h : s.repair t rep = .ok t') : s.RepairStep r t t' := by
  cases rep with
  | remove id =>
    cases h
    exact .remove hv hrep
  | add id => exact .add hv hrep h

variable (s r t₀) in
/-- A choice point reached from the trial in which the search began, with nothing but repairs of
its violation left to try. -/
def Open (c : ChoicePoint) : Prop :=
  ReflTransGen (s.RepairStep r) t₀ c.base ∧
    ∃ v, s.firstViolation? c.base = some v ∧ ∀ rep ∈ c.untried, rep ∈ s.repairs r c.base v

theorem tryRepairs_eq_ok {v : Violation} {complaint : Complaint} {reps : List Repair}
    {deeper : Option Failure} {c : ChoicePoint} (ht : ReflTransGen (s.RepairStep r) t₀ t)
    (hv : s.firstViolation? t = some v) (hreps : ∀ rep ∈ reps, rep ∈ s.repairs r t v)
    (h : s.tryRepairs t complaint reps deeper = .ok (t', c)) :
    ReflTransGen (s.RepairStep r) t₀ t' ∧ s.Open r t₀ c := by
  induction reps generalizing deeper with
  | nil => cases h
  | cons rep reps ih =>
    have hrest : ∀ x ∈ reps, x ∈ s.repairs r t v := fun x hx => hreps x (List.mem_cons_of_mem _ hx)
    rw [tryRepairs] at h
    split at h
    · rename_i t₁ hrep
      cases h
      have hstep := repairStep_of_repair hv (hreps rep List.mem_cons_self) hrep
      exact ⟨ht.tail hstep, ht, v, hv, hrest⟩
    · exact ih hrest h

theorem unwind_eq_ok {e : Failure} {stack stack' : List ChoicePoint}
    (hstack : ∀ c ∈ stack, s.Open r t₀ c) (h : s.unwind e stack = .ok (t', stack')) :
    ReflTransGen (s.RepairStep r) t₀ t' ∧ ∀ c ∈ stack', s.Open r t₀ c := by
  induction stack generalizing e with
  | nil => cases h
  | cons c stack ih =>
    have hbelow : ∀ x ∈ stack, s.Open r t₀ x := fun x hx => hstack x (List.mem_cons_of_mem _ hx)
    rw [unwind] at h
    split at h
    · rename_i t₁ c₁ htry
      cases h
      obtain ⟨hbase, v, hv, hreps⟩ := hstack c List.mem_cons_self
      obtain ⟨ht, hc⟩ := tryRepairs_eq_ok hbase hv hreps htry
      exact ⟨ht, List.forall_mem_cons.mpr ⟨hc, hbelow⟩⟩
    · exact ih hbelow h

theorem advance_eq_ok {v : Violation} {stack stack' : List ChoicePoint}
    (ht : ReflTransGen (s.RepairStep r) t₀ t) (hv : s.firstViolation? t = some v)
    (hstack : ∀ c ∈ stack, s.Open r t₀ c) (h : s.advance r t v stack = .ok (t', stack')) :
    ReflTransGen (s.RepairStep r) t₀ t' ∧ ∀ c ∈ stack', s.Open r t₀ c := by
  rw [advance] at h
  split at h
  · rename_i t₁ c₁ htry
    cases h
    obtain ⟨ht₁, hc⟩ := tryRepairs_eq_ok ht hv (fun _ hrep => hrep) htry
    exact ⟨ht₁, List.forall_mem_cons.mpr ⟨hc, hstack⟩⟩
  · exact unwind_eq_ok hstack h

theorem settleFrom_eq_settled {left left' : Nat} {stack : List ChoicePoint}
    (ht : ReflTransGen (s.RepairStep r) t₀ t) (hstack : ∀ c ∈ stack, s.Open r t₀ c)
    (h : s.settleFrom r left t stack = .settled t' left') : s.Mended r t₀ t' := by
  -- the trial and every choice point on the stack stay reachable from `t₀`
  induction left generalizing t stack with
  | zero => cases h
  | succ left ih =>
    rw [settleFrom] at h
    split at h
    · rename_i hnone
      cases h
      exact ⟨ht, hnone⟩
    · rename_i v hv
      split at h
      · rename_i t₁ stack₁ hadvance
        obtain ⟨ht₁, hstack₁⟩ := advance_eq_ok ht hv hstack hadvance
        exact ih ht₁ hstack₁ h
      · cases h

theorem settle_eq_settled {left left' : Nat} (h : s.settle r t left = .settled t' left') :
    s.Mended r t t' := by
  rw [settle_eq_settleFrom] at h
  exact settleFrom_eq_settled .refl (by simp) h

end Depsolve.Search
