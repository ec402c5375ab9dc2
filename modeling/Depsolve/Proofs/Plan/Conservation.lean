import Depsolve.Proofs.Plan.Ledger
import Depsolve.Proofs.Plan.Order
import Depsolve.Proofs.Universe.Lookup
/-!
# A plan carries out its decisions

Nothing is lost or given twice when decisions are laid out, so the plan can be
replayed on the installed packages and ends in what was decided.
-/
namespace Depsolve.Plan

open scoped List

variable (u : Universe) (d : Decisions)

def incoming : IdSet := IdSet.ofList (d.install.filter fun id => !(u.get id).installed)

def outgoing : IdSet := IdSet.ofList (d.erase.filter fun id => (u.get id).installed)

variable {u d}

theorem mem_incoming {id : PackageId} : id ∈ incoming u d ↔ id ∈ d.install ∧ id ∉ u.installed := by
  simp [incoming, Universe.mem_installed_iff_flag]

theorem mem_outgoing {id : PackageId} : id ∈ outgoing u d ↔ id ∈ d.erase ∧ id ∈ u.installed := by
  simp [outgoing, Universe.mem_installed_iff_flag]

variable (u d)

/-- The operations of incoming packages with the builds that they follow. -/
def inboundOps : List Operation := (classify u d.reasons (incoming u d).toList (outgoing u d)).1

/-- What becomes of the outgoing packages that no build follows. -/
def obsoletions : Obsoletions :=
  detected u (incoming u d).toList (recorded (incoming u d)
    (classify u d.reasons (incoming u d).toList (outgoing u d)).2 d.obsoletes)

def eraseOps : List Operation :=
  (sortCmp u.compareNames (obsoletions u d).left.toList).map fun id =>
    ⟨.erase, id, none, (u.get id).reason⟩

theorem materialize_operations :
    (materialize u d).operations = eraseOps u d ++ arrivals u (obsoletions u d).pairs
      (inboundOps u d) (arrange u d.order (incoming u d).toList) ++ reasonOps u d := rfl

variable {u d} in
/-- Every operation is made by one of four passes, which its kind tells apart. -/
theorem operation_cases {op : Operation} (hop : op ∈ (materialize u d).operations) :
    (op ∈ eraseOps u d ∧ op.kind = .erase) ∨
    (∃ id ∈ arrange u d.order (incoming u d).toList,
      op ∈ obsoleteOps u (obsoletions u d).pairs id ∧ op.kind = .obsolete) ∨
    (op ∈ inboundOps u d ∧ op.kind.isInbound = true) ∨
    (op ∈ reasonOps u d ∧ op.kind = .reasonChange) := by
  rw [materialize_operations, List.mem_append, List.mem_append, or_assoc] at hop
  rcases hop with herase | harrival | hreason
  · left
    obtain ⟨id, -, rfl⟩ := List.mem_map.mp herase
    exact ⟨herase, rfl⟩
  · right
    obtain ⟨id, hid, hop⟩ := List.mem_flatMap.mp harrival
    rcases List.mem_append.mp hop with hobsolete | hinbound
    · left
      obtain ⟨old, -, rfl⟩ := List.mem_map.mp hobsolete
      exact ⟨id, hid, hobsolete, rfl⟩
    · right
      left
      have hmem := (List.mem_filter.mp hinbound).1
      exact ⟨hmem, classify_isInbound u d.reasons _ _ op hmem⟩
  · right
    right
    right
    obtain ⟨c, -, rfl⟩ := List.mem_map.mp hreason
    exact ⟨hreason, rfl⟩

theorem obsoletions_divided :
    Divided (classify u d.reasons (incoming u d).toList (outgoing u d)).2 (incoming u d)
      (obsoletions u d) := detected_divided u (recorded_divided d.obsoletes)

theorem inboundOps_map_package :
    (inboundOps u d).map Operation.package = (incoming u d).toList := classify_map_package ..

theorem mem_arrange_incoming {id : PackageId} :
    id ∈ arrange u d.order (incoming u d).toList ↔ id ∈ incoming u d :=
  (arrange_perm u d.order (IdSet.toList_nodup _)).mem_iff.trans IdSet.mem_toList

theorem materialize_arriving :
    arriving (materialize u d).operations = arrange u d.order (incoming u d).toList := by
  have herase : arriving (eraseOps u d) = [] := by
    refine arriving_eq_nil fun op hop => ?_
    obtain ⟨id, -, rfl⟩ := List.mem_map.mp hop
    rfl
  have hreason : arriving (reasonOps u d) = [] := by
    refine arriving_eq_nil fun op hop => ?_
    obtain ⟨c, -, rfl⟩ := List.mem_map.mp hop
    rfl
  rw [materialize_operations, arriving_append, arriving_append, herase, hreason, List.nil_append,
    List.append_nil]
  refine arrivals_arriving u (classify_isInbound u _ _ _) ?_ fun id hid => ?_
  · exact inboundOps_map_package u d ▸ IdSet.toList_nodup _
  · rw [inboundOps_map_package]
    exact IdSet.mem_toList.mpr ((mem_arrange_incoming u d).mp hid)

theorem materialize_inbound :
    (materialize u d).inbound = arrange u d.order (incoming u d).toList := by
  rw [inbound_eq_arriving, materialize_arriving]

theorem mem_materialize_inbound {id : PackageId} :
    id ∈ (materialize u d).inbound ↔ id ∈ (incoming u d).toList := by
  rw [materialize_inbound, mem_arrange_incoming, IdSet.mem_toList]

theorem materialize_leaving_perm :
    (leaving (materialize u d).operations).Perm (outgoing u d).toList := by
  have herase : (leaving (eraseOps u d)).Perm (obsoletions u d).left.toList := by
    have heq : leaving (eraseOps u d) = sortCmp u.compareNames (obsoletions u d).left.toList := by
      rw [leaving, eraseOps, List.filterMap_map]
      exact List.filterMap_some
    rw [heq]
    exact sortBy_perm ..
  have hreason : leaving (reasonOps u d) = [] := by
    refine List.filterMap_eq_nil_iff.mpr fun op hop => ?_
    obtain ⟨c, -, rfl⟩ := List.mem_map.mp hop
    rfl
  have hdivided := obsoletions_divided u d
  have harrivals : (leaving (arrivals u (obsoletions u d).pairs (inboundOps u d)
      (arrange u d.order (incoming u d).toList))).Perm
      ((obsoletions u d).pairs.map Prod.fst ++ leaving (inboundOps u d)) := by
    refine arrivals_leaving_perm u ?_ (fun p hp => ?_) fun op hop => ?_
    · exact (arrange_perm u d.order (IdSet.toList_nodup _)).nodup_iff.mpr (IdSet.toList_nodup _)
    · exact (mem_arrange_incoming u d).mpr (hdivided.new_mem p hp)
    · rw [mem_arrange_incoming, ← IdSet.mem_toList, ← inboundOps_map_package]
      exact List.mem_map_of_mem hop
  rw [materialize_operations, leaving_append, leaving_append, hreason, List.append_nil]
  calc leaving (eraseOps u d) ++ leaving (arrivals u (obsoletions u d).pairs (inboundOps u d)
        (arrange u d.order (incoming u d).toList))
      ~ (obsoletions u d).left.toList ++
          ((obsoletions u d).pairs.map Prod.fst ++ leaving (inboundOps u d)) :=
        herase.append harrivals
    _ ~ ((obsoletions u d).pairs.map Prod.fst ++ leaving (inboundOps u d)) ++
          (obsoletions u d).left.toList := List.perm_append_comm
    _ ~ leaving (inboundOps u d) ++
          ((obsoletions u d).pairs.map Prod.fst ++ (obsoletions u d).left.toList) := by
        rw [← List.append_assoc]
        exact List.perm_append_comm.append_right _
    _ ~ leaving (inboundOps u d) ++
          (classify u d.reasons (incoming u d).toList (outgoing u d)).2.toList :=
        hdivided.perm.append_left _
    _ ~ (outgoing u d).toList := classify_leaving_perm u d.reasons _ _

theorem materialize_namesReplaced :
    ∀ op ∈ (materialize u d).operations, op.NamesReplaced := by
  intro op hop
  rcases operation_cases hop with ⟨-, hkind⟩ | ⟨id, -, -, hkind⟩ | ⟨hinbound, -⟩ | ⟨-, hkind⟩
  · simp [Operation.NamesReplaced, hkind]
  · simp [Operation.NamesReplaced, hkind]
  · exact classify_namesReplaced u d.reasons _ _ op hinbound
  · simp [Operation.NamesReplaced, hkind]

theorem materialize_marked :
    (materialize u d).operations.filterMap Operation.marked? =
      (reasonOps u d).map Operation.package := by
  have hbefore : (eraseOps u d ++ arrivals u (obsoletions u d).pairs (inboundOps u d)
      (arrange u d.order (incoming u d).toList)).filterMap Operation.marked? = [] := by
    refine List.filterMap_eq_nil_iff.mpr fun op hop => ?_
    rcases List.mem_append.mp hop with hop | hop
    · obtain ⟨id, -, rfl⟩ := List.mem_map.mp hop
      rfl
    · obtain ⟨x, -, hop⟩ := List.mem_flatMap.mp hop
      rcases List.mem_append.mp hop with hop | hop
      · obtain ⟨old, -, rfl⟩ := List.mem_map.mp hop
        rfl
      · exact Operation.marked?_of_isInbound
          (classify_isInbound u d.reasons _ _ op (List.mem_filter.mp hop).1)
  rw [materialize_operations, List.filterMap_append, hbefore, List.nil_append,
    ← List.filterMap_eq_map]
  refine List.filterMap_congr fun op hop => ?_
  obtain ⟨c, -, rfl⟩ := List.mem_map.mp hop
  rfl

theorem mem_reasonOps {id : PackageId} (h : id ∈ (reasonOps u d).map Operation.package) :
    id ∈ u.installed ∧ id ∉ d.erase := by
  obtain ⟨op, hop, rfl⟩ := List.mem_map.mp h
  obtain ⟨c, hc, rfl⟩ := List.mem_map.mp hop
  have hkept := (List.mem_filter.mp (mem_sortCmp.mp hc)).2
  simp only [Bool.and_eq_true, Bool.not_eq_true', List.contains_eq_mem,
    decide_eq_false_iff_not] at hkept
  exact ⟨Universe.mem_installed_iff_flag.mpr hkept.1.1, hkept.1.2⟩

theorem reasonOps_nodup : ((reasonOps u d).map Operation.package).Nodup := by
  have hkeys : (d.reasons.entries.map Prod.fst).Nodup :=
    List.pairwise_map.mpr (d.reasons.ascending.imp Nat.ne_of_lt)
  rw [reasonOps, List.map_map]
  refine (((sortBy_perm _ _).map Prod.fst).nodup_iff).mpr ?_
  exact hkeys.sublist (List.filter_sublist.map Prod.fst)

/-- The operations can be carried out one after another on the installed packages and end in what
was decided. No package is the subject of two operations, replaced twice, or both; a reason
changes only on a package that stays. -/
theorem materialize_replay :
    (∃ final, replay (materialize u d).operations u.installed.members = some final ∧
      (∀ id, id ∈ final ↔
        id ∈ u.installed ∧ id ∉ d.erase ∨ id ∈ d.install ∧ id ∉ u.installed) ∧
      ∀ op ∈ (materialize u d).operations, op.kind = .reasonChange → op.package ∈ final) ∧
    ((materialize u d).operations.map Operation.package ++
      (materialize u d).operations.filterMap Operation.replacedBuild?).Nodup := by
  have harriving : ∀ id, id ∈ arriving (materialize u d).operations ↔
      id ∈ d.install ∧ id ∉ u.installed := by
    intro id
    rw [materialize_arriving, mem_arrange_incoming, mem_incoming]
  have hleaving : ∀ id, id ∈ leaving (materialize u d).operations ↔
      id ∈ d.erase ∧ id ∈ u.installed := by
    intro id
    rw [(materialize_leaving_perm u d).mem_iff, IdSet.mem_toList, mem_outgoing]
  have harrivingOnce : (arriving (materialize u d).operations).Nodup := by
    rw [materialize_arriving]
    exact (arrange_perm u d.order (IdSet.toList_nodup _)).nodup_iff.mpr (IdSet.toList_nodup _)
  have hleavingOnce : (leaving (materialize u d).operations).Nodup :=
    (materialize_leaving_perm u d).nodup_iff.mpr (IdSet.toList_nodup _)
  have hpresent : ∀ id ∈ leaving (materialize u d).operations, id ∈ u.installed.members :=
    fun id h => PackageSet.mem_def.mp ((hleaving id).mp h).2
  have habsent : ∀ id ∈ arriving (materialize u d).operations, id ∉ u.installed.members :=
    fun id h => mt PackageSet.mem_def.mpr ((harriving id).mp h).2
  obtain ⟨final, hreplay, hfinal⟩ := replay_eq_some (materialize_namesReplaced u d) habsent
    hpresent harrivingOnce hleavingOnce
  have hmem : ∀ id, id ∈ final ↔
      id ∈ u.installed ∧ id ∉ d.erase ∨ id ∈ d.install ∧ id ∉ u.installed := by
    intro id
    rw [hfinal, harriving, hleaving, ← PackageSet.mem_def]
    exact or_congr_left (and_congr_right fun hin => not_congr (and_iff_left hin))
  refine ⟨⟨final, hreplay, hmem, fun op hop hkind => ?_⟩, ?_⟩
  · have hmarked : op.package ∈ (materialize u d).operations.filterMap Operation.marked? :=
      List.mem_filterMap.mpr ⟨op, hop, by simp [Operation.marked?, hkind]⟩
    rw [materialize_marked] at hmarked
    exact (hmem op.package).mpr (.inl (mem_reasonOps u d hmarked))
  · change (touched (materialize u d).operations).Nodup
    rw [(touched_perm _).nodup_iff]
    refine List.nodup_append.mpr ⟨harrivingOnce, ?_, ?_⟩
    · rw [materialize_marked]
      refine List.nodup_append.mpr ⟨hleavingOnce, reasonOps_nodup u d, ?_⟩
      rintro id hout _ hmarked rfl
      exact (mem_reasonOps u d hmarked).2 ((hleaving id).mp hout).1
    · rintro id hin _ hother rfl
      have hno := ((harriving id).mp hin).2
      rcases List.mem_append.mp hother with hout | hmarked
      · exact hno ((hleaving id).mp hout).2
      · rw [materialize_marked] at hmarked
        exact hno (mem_reasonOps u d hmarked).1

end Depsolve.Plan
