import Depsolve.Proofs.Universe.Lookup
import Depsolve.Solver.Trial
/-!
# What is wrong with a set of packages

The search looks for violations through links that it made once. It finds none
exactly if the requirements and conflicts of the packages themselves are in order.
-/
namespace Depsolve

namespace Universe

/-- Among the packages that are there one provides each requirement of `p`, and no other one
provides what `p` conflicts with. -/
structure Sound (u : Universe) (there : IdSet) (p : PackageId) : Prop where
  provided : ∀ d ∈ (u.get p).requires, ∃ q ∈ u.whatProvides d, q ∈ there
  peaceful : ∀ d ∈ (u.get p).conflicts, ∀ q ∈ u.whatProvides d, q ∈ there → q = p

/-- One package requires something that the other provides. -/
def Needs (u : Universe) (p q : PackageId) : Prop :=
  ∃ d ∈ (u.get p).requires, q ∈ u.whatProvides d

end Universe

namespace Links

variable {u : Universe} {id : PackageId}

private theorem getD_map_packages (f : Package → List (Dependency × IdSet))
    (hdefault : f default = []) : (u.packages.map f).getD id [] = f (u.get id) := by
  rcases Nat.lt_or_ge id u.packages.size with hlt | hge
  · have hlt' : id < (u.packages.map f).size := by rwa [Array.size_map]
    rw [Universe.get_eq_getElem hlt, Array.getD_eq_getD_getElem?, Array.getElem?_eq_getElem hlt',
      Option.getD_some, Array.getElem_map]
  · have hge' : (u.packages.map f).size ≤ id := by rwa [Array.size_map]
    rw [Universe.get_of_le hge, Array.getD_eq_getD_getElem?, Array.getElem?_eq_none hge',
      Option.getD_none, hdefault]

theorem requiresOf_ofUniverse :
    (ofUniverse u).requiresOf id = (u.get id).requires.map (providers u) :=
  getD_map_packages (fun p => p.requires.map (providers u)) rfl

theorem conflictsOf_ofUniverse :
    (ofUniverse u).conflictsOf id = (u.get id).conflicts.map (providers u) :=
  getD_map_packages (fun p => p.conflicts.map (providers u)) rfl

@[simp] theorem mem_providers {d : Dependency} : id ∈ (providers u d).2 ↔ id ∈ u.whatProvides d :=
  IdSet.mem_ofList

theorem find?_requiresOf_eq_none {there : IdSet} :
    (((ofUniverse u).requiresOf id).find? fun need => (need.2.inter there).isEmpty) = none ↔
      ∀ d ∈ (u.get id).requires, ∃ q ∈ u.whatProvides d, q ∈ there := by
  rw [requiresOf_ofUniverse, List.find?_eq_none, List.forall_mem_map]
  refine forall₂_congr fun d _ => ?_
  rw [IdSet.isEmpty_iff]
  simp only [IdSet.mem_inter, mem_providers, Classical.not_forall, Decidable.not_not]

theorem findSome?_conflictsOf_eq_none {there : IdSet} :
    (((ofUniverse u).conflictsOf id).findSome? fun ban =>
      ((ban.2.inter there).erase id).toList.head?.map (Violation.conflict id)) = none ↔
      ∀ d ∈ (u.get id).conflicts, ∀ q ∈ u.whatProvides d, q ∈ there → q = id := by
  rw [conflictsOf_ofUniverse, List.findSome?_eq_none_iff, List.forall_mem_map]
  refine forall₂_congr fun d _ => ?_
  rw [Option.map_eq_none_iff, List.head?_eq_none_iff, List.eq_nil_iff_forall_not_mem]
  simp only [IdSet.mem_toList, IdSet.mem_erase, IdSet.mem_inter, mem_providers]
  constructor
  · intro h q hq hthere
    exact Decidable.byContradiction fun hne => h q ⟨⟨hq, hthere⟩, hne⟩
  · rintro h q ⟨⟨hq, hthere⟩, hne⟩
    exact hne (h q hq hthere)

theorem violationOf?_eq_none {there : IdSet} :
    (ofUniverse u).violationOf? there id = none ↔ u.Sound there id := by
  rw [violationOf?]
  split
  · rename_i need hfind
    refine iff_of_false (by simp) fun hsound => ?_
    rw [find?_requiresOf_eq_none.mpr hsound.provided] at hfind
    cases hfind
  · rename_i hfind
    rw [findSome?_conflictsOf_eq_none]
    exact ⟨fun h => ⟨find?_requiresOf_eq_none.mp hfind, h⟩, fun h => h.peaceful⟩

end Links

namespace Search

variable {s : Search} {t : Trial} {id : PackageId}

@[simp] theorem mem_initial : id ∈ s.initial ↔ id ∈ s.pool.installed := by
  rw [s.initial_eq, PackageSet.mem_def]

theorem mem_tolerated :
    id ∈ s.tolerated ↔ id ∈ s.pool.installed ∧ ¬ s.pool.Sound s.pool.installed.members id := by
  rw [s.tolerated_eq, IdSet.mem_filter, mem_initial, s.links_eq, s.initial_eq,
    ← Links.violationOf?_eq_none, Option.isSome_iff_ne_none]

theorem firstViolation?_eq_none :
    s.firstViolation? t = none ↔ ∀ p ∈ t.present, p ∉ s.tolerated → s.pool.Sound t.present p := by
  rw [firstViolation?, List.findSome?_eq_none_iff, s.links_eq]
  simp only [IdSet.mem_toList, IdSet.mem_diff, Links.violationOf?_eq_none, and_imp]

theorem mem_requiresOf {p : PackageId} :
    ((s.links.requiresOf p).any fun need => need.2.contains id) = true ↔
      ∃ d ∈ (s.get p).requires, id ∈ s.pool.whatProvides d := by
  rw [s.links_eq, Links.requiresOf_ofUniverse, List.any_map, List.any_eq_true]
  simp only [Function.comp_apply, IdSet.contains_iff_mem, Links.mem_providers, get]

end Search

end Depsolve
