import Depsolve.Proofs.Plan.Layout
/-!
# How a package leaves

A package that no build follows is obsoleted if an incoming package obsoletes it, and
erased otherwise. What is obsoleted stands right before the package that does it, and
what is erased stands before everything that comes in.
-/
namespace Depsolve.Plan

variable {u : Universe} {d : Decisions}

/-! ## Who obsoletes whom -/

/-- Every package that is assigned to another one is obsoleted by it. -/
def Obsoletions.Sound (u : Universe) (o : Obsoletions) : Prop :=
  ∀ p ∈ o.pairs, (u.get p.2).obsoletesPackage (u.get p.1) = true

theorem Obsoletions.Sound.assign {o : Obsoletions} (h : o.Sound u) {old new : PackageId}
    (hnew : (u.get new).obsoletesPackage (u.get old) = true) (left : IdSet) :
    Obsoletions.Sound u ⟨o.pairs ++ [(old, new)], left⟩ := by
  intro p hp
  rcases List.mem_append.mp hp with hin | hlast
  · exact h p hin
  · rw [List.mem_singleton.mp hlast]
    exact hnew

theorem recorded_sound {incoming outgoing : IdSet} {obsoletes : List (PackageId × PackageId)}
    (h : ∀ p ∈ obsoletes, (u.get p.1).obsoletesPackage (u.get p.2) = true) :
    (recorded incoming outgoing obsoletes).Sound u := by
  apply List.foldlRecOn obsoletes
  · simp [Obsoletions.Sound]
  · intro o ho p hp
    split
    · exact ho.assign (h p hp) _
    · exact ho

theorem detected_sound {incoming : List PackageId} {o : Obsoletions} (h : o.Sound u) :
    (detected u incoming o).Sound u := by
  apply List.foldlRecOn o.left.toList
  · exact h
  · intro o ho old _
    split
    · rename_i new hfind
      have hnew : (u.get new).obsoletesPackage (u.get old) = true :=
        List.find?_some (p := fun new => (u.get new).obsoletesPackage (u.get old)) hfind
      exact ho.assign hnew _
    · exact ho

def detect (u : Universe) (incoming : List PackageId) (o : Obsoletions) (old : PackageId) :
    Obsoletions :=
  match incoming.find? fun new => (u.get new).obsoletesPackage (u.get old) with
  | some new => ⟨o.pairs ++ [(old, new)], o.left.erase old⟩
  | none => o

theorem foldl_detect_left {incoming olds : List PackageId} {o : Obsoletions} {old : PackageId}
    (h : old ∈ (olds.foldl (detect u incoming) o).left) : old ∈ o.left ∧ (old ∈ olds →
      ∀ new ∈ incoming, (u.get new).obsoletesPackage (u.get old) = false) := by
  induction olds generalizing o with
  | nil => exact ⟨h, fun hmem => absurd hmem List.not_mem_nil⟩
  | cons x olds ih =>
    obtain ⟨hstays, hseen⟩ := ih h
    rw [detect] at hstays
    split at hstays
    · obtain ⟨hin, hne⟩ := IdSet.mem_erase.mp hstays
      constructor
      · exact hin
      · intro hmem
        exact hseen ((List.mem_cons.mp hmem).resolve_left hne)
    · rename_i hfind
      constructor
      · exact hstays
      · intro hmem
        rcases List.mem_cons.mp hmem with rfl | hrest
        · intro new hnew
          exact Bool.eq_false_iff.mpr (List.find?_eq_none.mp hfind new hnew)
        · exact hseen hrest

/-- Everything that some incoming package obsoletes is assigned. -/
theorem detected_complete {incoming : List PackageId} {o : Obsoletions} {old : PackageId}
    (h : old ∈ (detected u incoming o).left) :
    ∀ new ∈ incoming, (u.get new).obsoletesPackage (u.get old) = false := by
  have hfold : old ∈ (o.left.toList.foldl (detect u incoming) o).left := h
  obtain ⟨hleft, hall⟩ := foldl_detect_left hfold
  exact hall (IdSet.mem_toList.mpr hleft)

/-! ## Operations -/

variable {op : Operation}

theorem erase_unobsoleted (hop : op ∈ (materialize u d).operations) (hkind : op.kind = .erase) :
    ∀ new ∈ (materialize u d).inbound,
      (u.get new).obsoletesPackage (u.get op.package) = false := by
  rcases operation_cases hop with ⟨herase, -⟩ | ⟨id, -, -, hother⟩ | ⟨-, hother⟩ | ⟨-, hother⟩
  case inl =>
    obtain ⟨id, hid, rfl⟩ := List.mem_map.mp herase
    have hleft : id ∈ (obsoletions u d).left := IdSet.mem_toList.mp (mem_sortCmp.mp hid)
    intro new hnew
    exact detected_complete hleft new ((mem_materialize_inbound u d).mp hnew)
  all_goals simp [hkind, OperationKind.isInbound] at hother

theorem obsolete_replaced
    (hrecorded : ∀ p ∈ d.obsoletes, (u.get p.1).obsoletesPackage (u.get p.2) = true)
    (hop : op ∈ (materialize u d).operations) (hkind : op.kind = .obsolete) :
    ∃ new ∈ (materialize u d).inbound, op.replaced = some new ∧
      (u.get new).obsoletesPackage (u.get op.package) = true := by
  have hsound : (obsoletions u d).Sound u := detected_sound (recorded_sound hrecorded)
  rcases operation_cases hop with ⟨-, hother⟩ | ⟨id, hid, hobsolete, -⟩ | ⟨-, hother⟩ | ⟨-, hother⟩
  case inr.inl =>
    obtain ⟨old, hold, rfl⟩ := List.mem_map.mp hobsolete
    obtain ⟨p, hp, rfl⟩ := List.mem_map.mp (mem_sortCmp.mp hold)
    obtain ⟨hpair, hnew⟩ := List.mem_filter.mp hp
    obtain rfl : p.2 = id := by simpa using hnew
    refine ⟨p.2, ?_, rfl, hsound p hpair⟩
    rw [materialize_inbound]
    exact hid
  all_goals simp [hkind, OperationKind.isInbound] at hother

/-- A package that leaves and that no build follows is the subject of one operation, which erases
or obsoletes it. -/
theorem exists_leaving_operation {old : PackageId}
    (hold : old ∈ leaving (materialize u d).operations)
    (hfree : ∀ op ∈ (materialize u d).operations, op.replacedBuild? ≠ some old) :
    ∃ op ∈ (materialize u d).operations, op.package = old ∧
      (op.kind = .erase ∨ op.kind = .obsolete) ∧
      ∀ other ∈ (materialize u d).operations, other.package = old → other = op := by
  obtain ⟨op, hop, hout⟩ := List.mem_filterMap.mp hold
  have hfollowed := hfree op hop
  have hnodup := (List.nodup_append.mp (materialize_replay u d).2).1
  have hkind : op.package = old ∧ (op.kind = .erase ∨ op.kind = .obsolete) := by
    cases hk : op.kind <;> simp_all [Operation.outgoing?]
  refine ⟨op, hop, hkind.1, hkind.2, ?_⟩
  intro other hother heq
  exact List.inj_on_of_nodup_map hnodup hother hop (heq.trans hkind.1.symm)

end Depsolve.Plan
