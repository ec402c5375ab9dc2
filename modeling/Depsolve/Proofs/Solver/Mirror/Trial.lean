import Depsolve.Proofs.Solver.Soundness
import Depsolve.Proofs.Universe.Embedding
/-!
# The same trial over a larger universe

A search mirrors another one when its universe embeds that of the other and its
settings are the same. On trials whose packages are renamed it finds the renamed
violations, and a package that comes in displaces the renamed packages. What only
the larger universe has is not on a trial, so it is never come across.
-/
namespace Depsolve

@[simps]
def Trial.rename (f : Renaming) (t : Trial) : Trial where
  present := t.present.rename f
  pinned := t.pinned.rename f
  forbidden := t.forbidden.rename f
  obsoleted := t.obsoleted.map (Prod.map f f)
  reasons := t.reasons.rename f

def Violation.rename (f : Renaming) : Violation → Violation
  | .missing package d => .missing (f package) d
  | .conflict package other => .conflict (f package) (f other)

def Failure.rename (f : Renaming) : Failure → Failure
  | .missing package d hadProviders => .missing (f package) d hadProviders
  | .conflict package other => .conflict (f package) (f other)
  | .guarded package => .guarded (f package)
  | .pinned package => .pinned (f package)
  | .forbidden package => .forbidden (f package)
  | .notApplicable obstacle => .notApplicable obstacle
  | .stepLimit => .stepLimit

/-- A result about renamed packages, which `g` renames in a success. -/
def renameResult {α : Type} (f : Renaming) (g : α → α) : Except Failure α → Except Failure α
  | .ok a => .ok (g a)
  | .error e => .error (e.rename f)

section Results

variable {α : Type} {f : Renaming} {g : α → α}

@[simp] theorem renameResult_ok (a : α) : renameResult f g (.ok a) = .ok (g a) := rfl

@[simp] theorem renameResult_error (e : Failure) :
    renameResult f g (.error e) = .error (e.rename f) := rfl

theorem renameResult_bind {step step' : α → Except Failure α}
    (hstep : ∀ a, step' (g a) = renameResult f g (step a)) (x : Except Failure α) :
    renameResult f g x >>= step' = renameResult f g (x >>= step) := by
  cases x with
  | ok a => exact hstep a
  | error e => rfl

theorem foldlM_rename {step step' : α → PackageId → Except Failure α}
    (hstep : ∀ a i, step' (g a) (f i) = renameResult f g (step a i)) (ids : List PackageId)
    (a : α) :
    (ids.map f).foldlM step' (g a) = renameResult f g (ids.foldlM step a) := by
  induction ids generalizing a with
  | nil => rfl
  | cons id ids ih =>
    rw [List.map_cons, List.foldlM_cons, hstep, List.foldlM_cons]
    exact renameResult_bind ih (step a id)

end Results

namespace Search

theorem requiresOf_eq (s : Search) (id : PackageId) :
    s.links.requiresOf id = (s.get id).requires.map (Links.providers s.pool) := by
  rw [s.links_eq, Links.requiresOf_ofUniverse, get]

theorem conflictsOf_eq (s : Search) (id : PackageId) :
    s.links.conflictsOf id = (s.get id).conflicts.map (Links.providers s.pool) := by
  rw [s.links_eq, Links.conflictsOf_ofUniverse, get]

end Search

/-- `s'` searches a universe in which that of `s` is embedded, with the same settings. -/
structure Search.Mirrors (s s' : Search) (f : Renaming) : Prop where
  pool : s.pool.Embeds s'.pool f
  solver : s'.solver = s.solver
  policy : s'.policy = s.policy
  guarded : s'.guarded = s.guarded.rename f

namespace Search.Mirrors

variable {s s' : Search} {f : Renaming} (h : s.Mirrors s' f)

include h

theorem initial : s'.initial = s.initial.rename f := by
  rw [s'.initial_eq, h.pool.installed_members, s.initial_eq]

theorem name (i : PackageId) : (s'.get (f i)).name = (s.get i).name := h.pool.name i

theorem evr (i : PackageId) : (s'.get (f i)).evr = (s.get i).evr := h.pool.evr i

theorem sameArchFamily (i j : PackageId) :
    (s'.get (f i)).sameArchFamily (s'.get (f j)) = (s.get i).sameArchFamily (s.get j) :=
  h.pool.apply_get₂ (fun _ _ => rfl) i j

theorem isInstallonly (i : PackageId) : s'.isInstallonly (f i) = s.isInstallonly i := by
  rw [Search.isInstallonly, h.solver]
  exact h.pool.apply_get (g := s.solver.isInstallonly) (fun _ => rfl) i

theorem inter_providers (d : Dependency) (present : IdSet) :
    (Links.providers s'.pool d).2.inter (present.rename f) =
      ((Links.providers s.pool d).2.inter present).rename f := by
  apply IdSet.inter_rename
  intro i
  rw [Links.mem_providers, Links.mem_providers, h.pool.mem_whatProvides]

theorem requires (i : PackageId) : (s'.get (f i)).requires = (s.get i).requires :=
  h.pool.apply_get (fun _ => rfl) i

theorem conflicts (i : PackageId) : (s'.get (f i)).conflicts = (s.get i).conflicts :=
  h.pool.apply_get (fun _ => rfl) i

theorem find?_requiresOf (present : IdSet) (i : PackageId) :
    ((s'.links.requiresOf (f i)).find? fun need =>
        (need.2.inter (present.rename f)).isEmpty).map Prod.fst =
      ((s.links.requiresOf i).find? fun need => (need.2.inter present).isEmpty).map Prod.fst := by
  rw [requiresOf_eq, requiresOf_eq, h.requires, List.find?_map, List.find?_map,
    Option.map_map, Option.map_map]
  simp only [Function.comp_def, h.inter_providers, IdSet.isEmpty_rename]
  rfl

theorem findSome?_conflictsOf (present : IdSet) (i : PackageId) :
    ((s'.links.conflictsOf (f i)).findSome? fun ban =>
        ((ban.2.inter (present.rename f)).erase (f i)).toList.head?.map (.conflict (f i))) =
      ((s.links.conflictsOf i).findSome? fun ban =>
        ((ban.2.inter present).erase i).toList.head?.map (.conflict i)).map
          (Violation.rename f) := by
  rw [conflictsOf_eq, conflictsOf_eq, h.conflicts, List.findSome?_map, List.findSome?_map,
    List.map_findSome?]
  simp only [Function.comp_def, h.inter_providers, IdSet.rename_erase, IdSet.toList_rename,
    List.head?_map, Option.map_map, Violation.rename]

theorem violationOf? (present : IdSet) (i : PackageId) :
    s'.links.violationOf? (present.rename f) (f i) =
      (s.links.violationOf? present i).map (Violation.rename f) := by
  have hneed := h.find?_requiresOf present i
  rw [Links.violationOf?, Links.violationOf?, h.findSome?_conflictsOf]
  revert hneed
  cases (s'.links.requiresOf (f i)).find? fun need => (need.2.inter (present.rename f)).isEmpty <;>
    cases (s.links.requiresOf i).find? fun need => (need.2.inter present).isEmpty <;>
    simp [Violation.rename]

theorem tolerated : s'.tolerated = s.tolerated.rename f := by
  rw [s'.tolerated_eq, s.tolerated_eq, h.initial]
  apply IdSet.rename_filter
  intro i
  rw [h.violationOf?, Option.isSome_map]

theorem obsoleters : s'.obsoleters = s.obsoleters.map f := by
  have hnone := h.pool.apply_get (g := fun p => p.obsoletes.isEmpty) (fun _ => rfl)
  rw [s'.obsoleters_eq, s.obsoleters_eq, h.pool.considered_toList, List.filter_map]
  simp only [Function.comp_def, h.pool.installed_flag, hnone]

theorem firstViolation? (t : Trial) :
    s'.firstViolation? (t.rename f) = (s.firstViolation? t).map (Violation.rename f) := by
  rw [Search.firstViolation?, Search.firstViolation?, h.tolerated, Trial.rename_present,
    IdSet.rename_diff, IdSet.toList_rename, List.findSome?_map, List.map_findSome?]
  simp only [Function.comp_def, h.violationOf?]

omit h in
theorem exists_of_present {t : Trial} {id : PackageId}
    (hid : (t.rename f).present.contains id = true) : ∃ i, f i = id := by
  obtain ⟨i, -, heq⟩ := IdSet.mem_rename.mp hid
  exact ⟨i, heq⟩

theorem displacedBuilds (t : Trial) (i : PackageId) :
    s'.displacedBuilds (t.rename f) (f i) = (s.displacedBuilds t i).map f := by
  rw [Search.displacedBuilds, Search.displacedBuilds, h.isInstallonly]
  split
  · rfl
  · rw [h.name]
    apply h.pool.filter_byName
    · intro j
      rw [bne, beq_rename, Trial.rename_present, IdSet.contains_rename, h.sameArchFamily, bne]
    · intro id hid
      simp only [Bool.and_eq_true] at hid
      exact exists_of_present hid.1.2

theorem displacedByObsoletes (t : Trial) (i : PackageId) :
    s'.displacedByObsoletes (t.rename f) (f i) = (s.displacedByObsoletes t i).map f := by
  have hobsoletes : (s'.get (f i)).obsoletes = (s.get i).obsoletes :=
    h.pool.apply_get (fun _ => rfl) i
  rw [Search.displacedByObsoletes, Search.displacedByObsoletes, hobsoletes, h.name,
    List.map_flatMap]
  congr 1
  funext o
  apply h.pool.filter_byName
  · intro j
    rw [Trial.rename_present, IdSet.contains_rename, h.evr]
  · intro id hid
    exact exists_of_present (Bool.and_eq_true_iff.mp hid).1

omit h in
theorem displaceBuild (t : Trial) (i : PackageId) :
    Search.displaceBuild (t.rename f) (f i) =
      renameResult f (Trial.rename f) (Search.displaceBuild t i) := by
  rw [Search.displaceBuild, Search.displaceBuild, Trial.rename_pinned, IdSet.contains_rename]
  split
  · rfl
  · simp only [renameResult_ok, Trial.rename, IdSet.rename_erase]

theorem displaceObsolete (i : PackageId) (t : Trial) (j : PackageId) :
    s'.displaceObsolete (f i) (t.rename f) (f j) =
      renameResult f (Trial.rename f) (s.displaceObsolete i t j) := by
  rw [Search.displaceObsolete, Search.displaceObsolete, h.guarded, Trial.rename_pinned,
    IdSet.contains_rename, IdSet.contains_rename]
  split
  · rfl
  · split
    · rfl
    · simp only [renameResult_ok, Trial.rename, IdSet.rename_erase, List.map_cons, Prod.map_apply]

theorem add (t : Trial) (i : PackageId) :
    s'.add (t.rename f) (f i) = renameResult f (Trial.rename f) (s.add t i) := by
  rw [Search.add, Search.add, h.displacedBuilds, h.displacedByObsoletes, Trial.rename_present,
    Trial.rename_forbidden, IdSet.contains_rename, IdSet.contains_rename]
  split
  · rfl
  · split
    · rfl
    · rw [foldlM_rename displaceBuild]
      apply renameResult_bind
      intro t₁
      rw [foldlM_rename (h.displaceObsolete i)]
      apply renameResult_bind
      intro t₂
      simp only [Trial.rename, IdSet.rename_insert, pure, Except.pure, renameResult_ok]

end Search.Mirrors

end Depsolve
