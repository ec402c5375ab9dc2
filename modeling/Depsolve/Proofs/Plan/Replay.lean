import Depsolve.IdSet
import Depsolve.Plan
import Mathlib.Data.List.Nodup
/-!
# Replaying a plan

An operation brings a package in, takes one off, does both or neither. Carried
out one after another on a set of packages, operations are possible whenever
what comes is absent at the start, what leaves is there, and nothing comes or
leaves twice.
-/
namespace Depsolve

namespace Operation

def replacedBuild? (op : Operation) : Option PackageId :=
  match op.kind with
  | .upgrade | .downgrade | .reinstall => op.replaced
  | .install | .erase | .obsolete | .reasonChange => none

def incoming? (op : Operation) : Option PackageId :=
  match op.kind with
  | .install | .upgrade | .downgrade | .reinstall => some op.package
  | .erase | .obsolete | .reasonChange => none

def outgoing? (op : Operation) : Option PackageId :=
  match op.kind with
  | .erase | .obsolete => some op.package
  | .install | .upgrade | .downgrade | .reinstall | .reasonChange => op.replacedBuild?

def bringIn (id : PackageId) (there : IdSet) : Option IdSet :=
  if id ∈ there then none else some (there.insert id)

def takeOff (id : PackageId) (there : IdSet) : Option IdSet :=
  if id ∈ there then some (there.erase id) else none

/-- The packages after an operation. It is possible only if what it brings in is absent and
what it takes off is there; a replacement has to name the build that it replaces. -/
def apply (op : Operation) (there : IdSet) : Option IdSet :=
  match op.kind with
  | .install => bringIn op.package there
  | .upgrade | .downgrade | .reinstall => do
    let old ← op.replaced
    bringIn op.package (← takeOff old there)
  | .erase | .obsolete => takeOff op.package there
  | .reasonChange => some there

/-- A replacement names the build that it replaces. -/
def NamesReplaced (op : Operation) : Prop :=
  op.kind = .upgrade ∨ op.kind = .downgrade ∨ op.kind = .reinstall → op.replaced.isSome

theorem bringIn_eq {id : PackageId} {there : IdSet} (h : id ∉ there) :
    bringIn id there = some (there.insert id) := if_neg h

theorem takeOff_eq {id : PackageId} {there : IdSet} (h : id ∈ there) :
    takeOff id there = some (there.erase id) := if_pos h

private theorem replace_spec {op : Operation} {there : IdSet} {old : PackageId}
    (hold : op.replaced = some old) (hin : op.package ∉ there) (hout : old ∈ there) :
    ∃ next, (do let o ← op.replaced; bringIn op.package (← takeOff o there)) = some next ∧
      ∀ id, id ∈ next ↔ id ∈ there ∧ op.replaced ≠ some id ∨ some op.package = some id := by
  have hno : op.package ∉ there.erase old := fun h => hin (IdSet.mem_erase.mp h).1
  refine ⟨(there.erase old).insert op.package, ?_, fun id => ?_⟩
  · simp [hold, takeOff_eq hout, bringIn_eq hno]
  · simp [hold, eq_comm]

theorem apply_eq_some {op : Operation} {there : IdSet} (hnames : op.NamesReplaced)
    (hin : ∀ id, op.incoming? = some id → id ∉ there)
    (hout : ∀ id, op.outgoing? = some id → id ∈ there) :
    ∃ next, op.apply there = some next ∧
      ∀ id, id ∈ next ↔ id ∈ there ∧ op.outgoing? ≠ some id ∨ op.incoming? = some id := by
  have hreplaced : op.kind = .upgrade ∨ op.kind = .downgrade ∨ op.kind = .reinstall →
      ∃ old, op.replaced = some old := fun hk => Option.isSome_iff_exists.mp (hnames hk)
  unfold apply incoming? outgoing? replacedBuild? at *
  cases hk : op.kind <;> simp only [hk, reduceCtorEq, false_or, or_false, or_self] at *
  case install => exact ⟨_, bringIn_eq (hin _ rfl), fun id => by simp [eq_comm]⟩
  case upgrade | downgrade | reinstall =>
    obtain ⟨old, hold⟩ := hreplaced trivial
    exact replace_spec hold (hin _ rfl) (hout _ hold)
  case erase | obsolete => exact ⟨_, takeOff_eq (hout _ rfl), fun id => by simp [eq_comm]⟩
  case reasonChange => exact ⟨there, rfl, fun id => by simp⟩

end Operation

namespace Plan

/-- Carry operations out one after another. -/
def replay : List Operation → IdSet → Option IdSet
  | [], there => some there
  | op :: ops, there => (op.apply there).bind (replay ops)

def arriving (ops : List Operation) : List PackageId := ops.filterMap Operation.incoming?

def leaving (ops : List Operation) : List PackageId := ops.filterMap Operation.outgoing?

theorem arriving_append (ops rest : List Operation) :
    arriving (ops ++ rest) = arriving ops ++ arriving rest := List.filterMap_append

theorem leaving_append (ops rest : List Operation) :
    leaving (ops ++ rest) = leaving ops ++ leaving rest := List.filterMap_append

theorem arriving_cons (op : Operation) (ops : List Operation) :
    arriving (op :: ops) = op.incoming?.toList ++ arriving ops := by
  cases h : op.incoming? <;> simp [arriving, h]

theorem leaving_cons (op : Operation) (ops : List Operation) :
    leaving (op :: ops) = op.outgoing?.toList ++ leaving ops := by
  cases h : op.outgoing? <;> simp [leaving, h]

/-- Operations that bring in absent packages and take off present ones, none of them twice,
can be carried out in their order, and what is there in the end does not depend on it. -/
theorem replay_eq_some {ops : List Operation} {there : IdSet}
    (hnames : ∀ op ∈ ops, op.NamesReplaced)
    (hin : ∀ id ∈ arriving ops, id ∉ there) (hout : ∀ id ∈ leaving ops, id ∈ there)
    (hinOnce : (arriving ops).Nodup) (houtOnce : (leaving ops).Nodup) :
    ∃ final, replay ops there = some final ∧
      ∀ id, id ∈ final ↔ id ∈ there ∧ id ∉ leaving ops ∨ id ∈ arriving ops := by
  induction ops generalizing there with
  | nil => exact ⟨there, rfl, by simp [arriving, leaving]⟩
  | cons op ops ih =>
    rw [arriving_cons] at hin hinOnce
    rw [leaving_cons] at hout houtOnce
    obtain ⟨next, hnext, hmem⟩ := Operation.apply_eq_some (hnames op List.mem_cons_self)
      (fun id h => hin id (List.mem_append_left _ (Option.mem_toList.mpr h)))
      (fun id h => hout id (List.mem_append_left _ (Option.mem_toList.mpr h)))
    have hinRest := List.nodup_append.mp hinOnce
    have houtRest := List.nodup_append.mp houtOnce
    -- what the head brings in is not brought in again, and what it takes off not taken off again
    have hin' : ∀ id ∈ arriving ops, id ∉ next := by
      intro id hid hmem'
      rcases (hmem id).mp hmem' with h | h
      · exact hin id (List.mem_append_right _ hid) h.1
      · exact hinRest.2.2 id (Option.mem_toList.mpr h) id hid rfl
    have hout' : ∀ id ∈ leaving ops, id ∈ next := by
      intro id hid
      refine (hmem id).mpr (.inl ⟨hout id (List.mem_append_right _ hid), fun h => ?_⟩)
      exact houtRest.2.2 id (Option.mem_toList.mpr h) id hid rfl
    obtain ⟨final, hfinal, hfinalMem⟩ := ih (fun o ho => hnames o (List.mem_cons_of_mem _ ho))
      hin' hout' hinRest.2.1 houtRest.2.1
    refine ⟨final, by rw [replay, hnext]; exact hfinal, fun id => ?_⟩
    rw [hfinalMem, hmem, arriving_cons, leaving_cons]
    simp only [List.mem_append, Option.mem_toList, not_or]
    have hfresh : op.incoming? = some id → id ∉ leaving ops := by
      intro h hl
      exact hin id (List.mem_append_left _ (Option.mem_toList.mpr h))
        (hout id (List.mem_append_right _ hl))
    tauto

end Plan

end Depsolve
