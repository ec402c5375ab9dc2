import Depsolve.Proofs.Plan.Conservation
/-!
# How a plan is laid out

Erases come first and changes of reason last. In between, each incoming package stands
directly behind the packages that it obsoletes. The packages of each such row stand by
name.
-/
namespace Depsolve.Plan

open Universe

/-- An incoming package, and the packages that it obsoletes in front of it. -/
structure Arrival where
  obsoleted : List Operation
  inbound : Operation

def Arrival.operations (a : Arrival) : List Operation := a.obsoleted ++ [a.inbound]

/-- The three parts of a plan. -/
structure Layout (u : Universe) (erases : List Operation) (arrivals : List Arrival)
    (changes : List Operation) : Prop where
  erase : ∀ op ∈ erases, op.kind = .erase
  erase_byName : u.ByName (erases.map Operation.package)
  inbound : ∀ a ∈ arrivals, a.inbound.kind.isInbound = true
  inbound_nodup : (arrivals.map fun a => a.inbound.package).Nodup
  obsolete : ∀ a ∈ arrivals, ∀ op ∈ a.obsoleted,
    op.kind = .obsolete ∧ op.replaced = some a.inbound.package
  obsolete_byName : ∀ a ∈ arrivals, u.ByName (a.obsoleted.map Operation.package)
  change : ∀ op ∈ changes, op.kind = .reasonChange
  change_byName : u.ByName (changes.map Operation.package)

variable (u : Universe) (d : Decisions)

theorem arrivals_eq_flatMap {pairs : List (PackageId × PackageId)} {inbound : List Operation}
    {ids : List PackageId} (hnodup : (inbound.map Operation.package).Nodup)
    (hids : ∀ id ∈ ids, id ∈ inbound.map Operation.package) :
    ∃ blocks : List Arrival, arrivals u pairs inbound ids = blocks.flatMap Arrival.operations ∧
      (blocks.map fun a => a.inbound.package) = ids ∧
      ∀ a ∈ blocks, a.inbound ∈ inbound ∧ a.obsoleted = obsoleteOps u pairs a.inbound.package := by
  induction ids with
  | nil => exact ⟨[], rfl, rfl, by simp⟩
  | cons id ids ih =>
    obtain ⟨hid, hids⟩ := List.forall_mem_cons.mp hids
    obtain ⟨blocks, heq, hpackages, hblocks⟩ := ih hids
    obtain ⟨op, hop, hpackage⟩ := List.map_eq_singleton_iff.mp (filter_map_package hnodup hid)
    have hmem : op ∈ inbound := by
      apply List.mem_of_mem_filter
      rw [hop]
      exact List.mem_singleton_self op
    refine ⟨⟨obsoleteOps u pairs id, op⟩ :: blocks, ?_, ?_, ?_⟩
    · rw [arrivals, List.flatMap_cons, hop, List.flatMap_cons, ← heq]
      rfl
    · rw [List.map_cons, hpackages, hpackage]
    · apply List.forall_mem_cons.mpr ⟨⟨hmem, ?_⟩, hblocks⟩
      rw [hpackage]

theorem obsoleteOps_byName {pairs : List (PackageId × PackageId)}
    (hpairs : (pairs.map Prod.fst).Nodup) (new : PackageId) :
    u.ByName ((obsoleteOps u pairs new).map Operation.package) := by
  have hmap : (obsoleteOps u pairs new).map Operation.package =
      sortCmp u.compareNames ((pairs.filter fun p => p.2 == new).map Prod.fst) := by
    rw [obsoleteOps, List.map_map]
    exact List.map_id _
  rw [hmap]
  apply byName_sortCmp
  exact hpairs.sublist (List.filter_sublist.map Prod.fst)

theorem eraseOps_byName : u.ByName ((eraseOps u d).map Operation.package) := by
  have hmap : (eraseOps u d).map Operation.package =
      sortCmp u.compareNames (obsoletions u d).left.toList := by
    rw [eraseOps, List.map_map]
    exact List.map_id _
  rw [hmap]
  exact byName_sortCmp (IdSet.toList_nodup _)

theorem reasonOps_byName : u.ByName ((reasonOps u d).map Operation.package) := by
  apply byName_of_isLE ?_ (reasonOps_nodup u d)
  have htrans := transCmp_comap u.compareNames (Prod.fst : PackageId × Reason → PackageId)
  have hsorted : ∀ changes : List (PackageId × Reason),
      (sortCmp (fun a b => u.compareNames a.1 b.1) changes).Pairwise
        fun a b => (u.compareNames a.1 b.1).isLE = true := sortCmp_pairwise
  rw [reasonOps, List.map_map]
  exact List.pairwise_map.mpr (hsorted _)

theorem obsoletions_nodup : ((obsoletions u d).pairs.map Prod.fst).Nodup := by
  have hnodup := (obsoletions_divided u d).perm.nodup_iff.mpr (IdSet.toList_nodup _)
  exact (List.nodup_append.mp hnodup).1

theorem materialize_layout : ∃ erases blocks changes,
    (materialize u d).operations = erases ++ blocks.flatMap Arrival.operations ++ changes ∧
    Layout u erases blocks changes := by
  have hnodup : ((inboundOps u d).map Operation.package).Nodup := by
    rw [inboundOps_map_package]
    exact IdSet.toList_nodup _
  have hids : ∀ id ∈ arrange u d.order (incoming u d).toList,
      id ∈ (inboundOps u d).map Operation.package := by
    intro id hid
    rw [inboundOps_map_package, IdSet.mem_toList]
    exact (mem_arrange_incoming u d).mp hid
  obtain ⟨blocks, heq, hpackages, hblocks⟩ :=
    @arrivals_eq_flatMap u (obsoletions u d).pairs _ _ hnodup hids
  refine ⟨eraseOps u d, blocks, reasonOps u d, ?_, ?_⟩
  · rw [materialize_operations, heq]
  constructor
  · intro op hop
    obtain ⟨id, -, rfl⟩ := List.mem_map.mp hop
    rfl
  · exact eraseOps_byName u d
  · intro a ha
    exact classify_isInbound u d.reasons _ _ _ (hblocks a ha).1
  · rw [hpackages]
    exact (arrange_perm u d.order (IdSet.toList_nodup _)).nodup_iff.mpr (IdSet.toList_nodup _)
  · intro a ha op hop
    rw [(hblocks a ha).2] at hop
    obtain ⟨old, -, rfl⟩ := List.mem_map.mp hop
    exact ⟨rfl, rfl⟩
  · intro a ha
    rw [(hblocks a ha).2]
    exact obsoleteOps_byName u (obsoletions_nodup u d) _
  · intro op hop
    obtain ⟨c, -, rfl⟩ := List.mem_map.mp hop
    rfl
  · exact reasonOps_byName u d

/-! ## Places -/

/-- The operation stands before the one that brings `new` in, and nothing stands in between but
what `new` obsoletes. -/
def StandsBefore (ops : List Operation) (op : Operation) (new : PackageId) : Prop :=
  ∃ front between arrival back, ops = front ++ op :: (between ++ arrival :: back) ∧
    (∀ x ∈ between, x.kind = .obsolete ∧ x.replaced = some new) ∧
    arrival.kind.isInbound = true ∧ arrival.package = new

/-- The operation stands before everything that comes in. -/
def StandsFirst (ops : List Operation) (op : Operation) : Prop :=
  ∃ front back, ops = front ++ op :: back ∧ ∀ x ∈ front, x.kind.isInbound = false

namespace Layout

variable {u : Universe} {erases changes : List Operation} {blocks : List Arrival} {op : Operation}

theorem kind_cases (h : Layout u erases blocks changes)
    (hop : op ∈ erases ++ blocks.flatMap Arrival.operations ++ changes) :
    (op ∈ erases ∧ op.kind = .erase) ∨ (∃ a ∈ blocks, op ∈ a.obsoleted ∧ op.kind = .obsolete) ∨
      op.kind.isInbound = true ∨ op.kind = .reasonChange := by
  simp only [List.mem_append, List.mem_flatMap, Arrival.operations, List.mem_singleton] at hop
  rcases hop with (herase | ⟨a, ha, hobsolete | rfl⟩) | hchange
  · exact .inl ⟨herase, h.erase op herase⟩
  · exact .inr (.inl ⟨a, ha, hobsolete, (h.obsolete a ha op hobsolete).1⟩)
  · exact .inr (.inr (.inl (h.inbound a ha)))
  · exact .inr (.inr (.inr (h.change op hchange)))

theorem standsFirst (h : Layout u erases blocks changes)
    (hop : op ∈ erases ++ blocks.flatMap Arrival.operations ++ changes)
    (hkind : op.kind = .erase) :
    StandsFirst (erases ++ blocks.flatMap Arrival.operations ++ changes) op := by
  rcases h.kind_cases hop with ⟨hin, -⟩ | ⟨a, -, -, hother⟩ | hother | hother
  · obtain ⟨front, back, rfl⟩ := List.append_of_mem hin
    refine ⟨front, back ++ blocks.flatMap Arrival.operations ++ changes, by simp, ?_⟩
    intro x hx
    rw [h.erase x (List.mem_append_left _ hx)]
    rfl
  all_goals simp [hkind, OperationKind.isInbound] at hother

theorem standsBefore (h : Layout u erases blocks changes)
    (hop : op ∈ erases ++ blocks.flatMap Arrival.operations ++ changes)
    (hkind : op.kind = .obsolete) : ∃ new, op.replaced = some new ∧
      StandsBefore (erases ++ blocks.flatMap Arrival.operations ++ changes) op new := by
  rcases h.kind_cases hop with ⟨-, hother⟩ | ⟨a, ha, hin, -⟩ | hother | hother
  case inr.inl =>
    obtain ⟨earlier, later, rfl⟩ := List.append_of_mem ha
    obtain ⟨front, between, hblock⟩ := List.append_of_mem hin
    refine ⟨a.inbound.package, (h.obsolete a ha op hin).2,
      erases ++ earlier.flatMap Arrival.operations ++ front, between, a.inbound,
      later.flatMap Arrival.operations ++ changes, ?_, ?_, h.inbound a ha, rfl⟩
    · simp [Arrival.operations, hblock]
    · intro x hx
      exact h.obsolete a ha x (by simp [hblock, hx])
  all_goals simp [hkind, OperationKind.isInbound] at hother

end Layout

end Depsolve.Plan
