import Depsolve.Proofs.Plan.Conservation
/-!
# What kind of operation it is

An incoming package is installed, or it follows an outgoing build of its name and
family, and then the order of the two builds decides between an upgrade, a
downgrade and a reinstall.
-/
namespace Depsolve.Plan

variable {u : Universe} {d : Decisions}

theorem classify_kind {reasons : Reasons} {ids : List PackageId} {outgoing : IdSet} :
    ∀ op ∈ (classify u reasons ids outgoing).1, op.kind = .install ∨
      ∃ old ∈ outgoing, op.replaced = some old ∧ op.kind = replacementKind u op.package old ∧
        (u.get old).name = (u.get op.package).name ∧
        (u.get old).sameArchFamily (u.get op.package) = true := by
  induction ids generalizing outgoing with
  | nil => simp [classify]
  | cons id ids ih =>
    rw [classify]
    split
    · rename_i old hold
      have hin := followed?_mem u hold
      have hfamily := (List.mem_filter.mp (newest?_mem u hold)).2
      simp only [Bool.and_eq_true, beq_iff_eq] at hfamily
      refine List.forall_mem_cons.mpr ⟨.inr ⟨old, hin, rfl, rfl, hfamily⟩, fun op hop => ?_⟩
      rcases ih op hop with hinstall | ⟨old', hold', hspec⟩
      · exact .inl hinstall
      · exact .inr ⟨old', (IdSet.mem_erase.mp hold').1, hspec⟩
    · exact List.forall_mem_cons.mpr ⟨.inl rfl, ih⟩

theorem mem_inboundOps {op : Operation} (hop : op ∈ (materialize u d).operations)
    (hin : op.kind.isInbound = true) : op ∈ inboundOps u d := by
  rcases operation_cases hop with ⟨-, hkind⟩ | ⟨id, -, -, hkind⟩ | ⟨hinbound, -⟩ | ⟨-, hkind⟩
  case inr.inr.inl => exact hinbound
  all_goals simp [hkind, OperationKind.isInbound] at hin

theorem mem_install_of_isInbound {op : Operation} (hop : op ∈ (materialize u d).operations)
    (hin : op.kind.isInbound = true) : op.package ∈ d.install ∧ op.package ∉ u.installed := by
  have hmem : op.package ∈ (inboundOps u d).map Operation.package :=
    List.mem_map_of_mem (mem_inboundOps hop hin)
  rw [inboundOps_map_package] at hmem
  exact mem_incoming.mp (IdSet.mem_toList.mp hmem)

theorem notMem_erase_of_notMem_leaving {id : PackageId} (hid : id ∈ u.installed)
    (hkept : id ∉ leaving (materialize u d).operations) : id ∉ d.erase := by
  intro herase
  refine hkept ((materialize_leaving_perm u d).mem_iff.mpr ?_)
  exact IdSet.mem_toList.mpr (mem_outgoing.mpr ⟨herase, hid⟩)

theorem downgrade_replaces {op : Operation} (hop : op ∈ (materialize u d).operations)
    (hkind : op.kind = .downgrade) : ∃ old ∈ u.installed, old ∈ d.erase ∧ op.replaced = some old ∧
      (u.get old).name = (u.get op.package).name ∧
      (u.get old).sameArchFamily (u.get op.package) = true ∧
      (u.get op.package).evr.older (u.get old).evr = true := by
  have hin : op.kind.isInbound = true := by rw [hkind]; rfl
  rcases classify_kind op (mem_inboundOps hop hin) with
    hinstall | ⟨old, hold, hreplaced, hreplacement, hname, hfamily⟩
  · exact absurd (hkind.symm.trans hinstall) (by decide)
  · have hout := mem_outgoing.mp hold
    refine ⟨old, hout.2, hout.1, hreplaced, hname, hfamily, ?_⟩
    rw [hkind, replacementKind] at hreplacement
    split at hreplacement
    · cases hreplacement
    · rename_i hlt
      rw [Evr.older, hlt]
      rfl
    · cases hreplacement

end Depsolve.Plan
