import Depsolve.Policy
import Depsolve.Proofs.PackageSet.Extent
import Depsolve.Proofs.Sort
import Depsolve.Proofs.Version.Order
import Depsolve.Query
/-!
# The orders of packages

The order in which packages are listed and the order in which candidates are preferred both
end with the identifier, so nothing but a package itself is equal to it. A listing is then
determined by what it lists, whatever the order and the repetitions it is made from.
-/
namespace Depsolve

/-- The order that goes by `cmp`, or against it. -/
def directed {α : Type} (up : Bool) (cmp : α → α → Ordering) (a b : α) : Ordering :=
  if up then cmp a b else cmp b a

instance {α : Type} {up : Bool} {cmp : α → α → Ordering} [h : Std.TransCmp cmp] :
    Std.TransCmp (directed up cmp) := by
  cases up with
  | true => exact h
  | false => exact (Std.TransCmp.opposite : Std.TransCmp fun a b => cmp b a)

namespace Universe

variable (u : Universe)

instance : Std.TransCmp u.comparePackages := by
  have hevr := transCmp_comap Evr.compare fun id => (u.get id).evr
  exact inferInstanceAs (Std.TransCmp (compareLex (compareOn fun id => (u.get id).name)
    (compareLex (fun a b => (u.get a).evr.compare (u.get b).evr)
      (compareLex (compareOn fun id => (u.get id).arch)
        (compareLex (compareOn fun id => u.repoPriority (u.get id).repo) compare)))))

instance : Std.LawfulEqCmp u.comparePackages where
  eq_of_compare h := by
    simp only [comparePackages, Ordering.then_eq_eq] at h
    exact Nat.compare_eq_eq.mp h.2.2.2.2

end Universe

namespace Policy

variable (p : Policy) (u : Universe)

instance : Std.TransCmp (p.compare u) := by
  have hinstalled : Std.TransCmp fun a b : PackageId =>
      compareOn (fun id => (u.get id).installed) b a := Std.TransCmp.opposite
  have hevr := transCmp_comap (directed p.preferLowest Evr.compare) fun id => (u.get id).evr
  exact inferInstanceAs (Std.TransCmp
    (compareLex (fun a b => compareOn (fun id => (u.get id).installed) b a)
      (compareLex (compareOn fun id => u.repoPriority (u.get id).repo)
        (compareLex (fun a b => directed p.preferLowest Evr.compare (u.get a).evr (u.get b).evr)
          (compareLex (compareOn fun id => p.archRank (u.get id).arch) Ord.compare)))))

instance : Std.LawfulEqCmp (p.compare u) where
  eq_of_compare h := by
    simp only [compare, Ordering.then_eq_eq] at h
    exact Nat.compare_eq_eq.mp h.2.2.2.2

variable {p u} {candidates others : List PackageId}

theorem eq_prefer_iff {l : List PackageId} :
    l = p.prefer u candidates ↔ Ascending (p.compare u) l ∧ ∀ id, id ∈ l ↔ id ∈ candidates :=
  eq_eraseReps_sortCmp_iff

theorem prefer_eq_prefer_iff :
    p.prefer u candidates = p.prefer u others ↔ ∀ id, id ∈ candidates ↔ id ∈ others := by
  have hsorted : Ascending (p.compare u) (p.prefer u candidates) := (eq_prefer_iff.mp rfl).1
  rw [eq_prefer_iff, and_iff_right hsorted]
  simp only [mem_prefer]

theorem preferNamed_eq_sortCmp (name : String) : p.preferNamed u name candidates =
    sortCmp (compareOn fun id => (u.get id).name != name) (p.prefer u candidates) := by
  rw [sortCmp_flag]
  simp [preferNamed, bne]

end Policy

namespace Query

variable {q : Query} {l : List PackageId}

theorem ascending_sorted (q : Query) : Ascending q.pool.comparePackages q.sorted :=
  ascending_sortCmp_of_nodup q.result.toList_nodup

theorem eq_sorted_iff :
    l = q.sorted ↔ Ascending q.pool.comparePackages l ∧ ∀ id, id ∈ l ↔ id ∈ q.result := by
  have hmem : ∀ id, id ∈ q.sorted ↔ id ∈ q.result := by simp [sorted]
  constructor
  · rintro rfl
    exact ⟨ascending_sorted q, hmem⟩
  · rintro ⟨hl, hresult⟩
    exact hl.eq_of_mem_iff (ascending_sorted q) fun id => (hresult id).trans (hmem id).symm

end Query

/-- Both orders of packages are total, and in both a package is equal to itself alone. So a
query has one ascending listing, candidates have one listing with the best first, whatever
their order and repetitions, and asking for a name sorts this listing by the name alone, those
who have it first. -/
theorem Policy.listings_canonical (p : Policy) (u : Universe) :
    (Std.TransCmp u.comparePackages ∧ Std.LawfulEqCmp u.comparePackages) ∧
    (Std.TransCmp (p.compare u) ∧ Std.LawfulEqCmp (p.compare u)) ∧
    (∀ (q : Query) (l : List PackageId), l = q.sorted ↔
      Ascending q.pool.comparePackages l ∧ ∀ id, id ∈ l ↔ id ∈ q.result) ∧
    (∀ candidates l : List PackageId, l = p.prefer u candidates ↔
      Ascending (p.compare u) l ∧ ∀ id, id ∈ l ↔ id ∈ candidates) ∧
    (∀ candidates others : List PackageId, p.prefer u candidates = p.prefer u others ↔
      ∀ id, id ∈ candidates ↔ id ∈ others) ∧
    ∀ (name : String) (candidates : List PackageId),
      p.preferNamed u name candidates =
          sortCmp (compareOn fun id => (u.get id).name != name) (p.prefer u candidates) ∧
        p.preferNamed u name candidates =
          (p.prefer u candidates).filter (fun id => (u.get id).name = name) ++
            (p.prefer u candidates).filter (fun id => (u.get id).name ≠ name) := by
  refine ⟨⟨inferInstance, inferInstance⟩, ⟨inferInstance, inferInstance⟩,
    fun _ _ => Query.eq_sorted_iff, fun _ _ => eq_prefer_iff, fun _ _ => prefer_eq_prefer_iff,
    fun name candidates => ⟨preferNamed_eq_sortCmp name, ?_⟩⟩
  simp [preferNamed, bne, beq_eq_decide]

end Depsolve
