import Depsolve.Proofs.Universe.Lookup
import Depsolve.Solver.Trial
/-!
# What an arriving package takes off

A package that is put on the system displaces builds of its own name and packages
of other names, and nothing else about the trial changes.
-/
namespace Depsolve

/-- Another build that takes the place of a package when it comes in. -/
structure Solver.TakesPlace (solver : Solver) (u : Universe) (new old : PackageId) : Prop where
  considered : new ∈ u.considered
  other : old ≠ new
  name : (u.get old).name = (u.get new).name
  family : (u.get new).sameArchFamily (u.get old) = true
  single : solver.isInstallonly (u.get new) = false

namespace Search

variable {s : Search} {t t' : Trial} {id other : PackageId}

theorem mem_displacedBuilds :
    other ∈ s.displacedBuilds t id ↔ s.isInstallonly id = false ∧ other < s.pool.size ∧
      (s.get other).name = (s.get id).name ∧ other ≠ id ∧ other ∈ t.present ∧
      (s.get id).sameArchFamily (s.get other) = true := by
  rw [displacedBuilds]
  split
  · rename_i h
    simp [h]
  · rename_i h
    rw [List.mem_filter, Universe.mem_byName]
    simp [h, IdSet.contains_iff_mem, get, and_assoc]

theorem takesPlace_of_mem_displacedBuilds (hid : id ∈ s.pool.considered)
    (h : other ∈ s.displacedBuilds t id) : s.solver.TakesPlace s.pool id other := by
  obtain ⟨hsingle, -, hname, hother, -, hfamily⟩ := mem_displacedBuilds.mp h
  exact ⟨hid, hother, hname, hfamily, hsingle⟩

theorem mem_displacedByObsoletes :
    other ∈ s.displacedByObsoletes t id ↔ other < s.pool.size ∧ other ∈ t.present ∧
      (s.get other).name ≠ (s.get id).name ∧
      (s.get id).obsoletesPackage (s.get other) = true := by
  simp only [displacedByObsoletes, List.mem_flatMap, List.mem_filter, Universe.mem_byName,
    Package.obsoletesPackage, List.any_eq_true, Bool.and_eq_true, beq_iff_eq, bne_iff_ne,
    IdSet.contains_iff_mem]
  constructor
  · rintro ⟨o, ⟨ho, hname⟩, ⟨hlt, hsame⟩, hpresent, hevr⟩
    have hsame' : (s.get other).name = o.name := hsame
    exact ⟨hlt, hpresent, hsame'.symm ▸ hname, o, ho, hsame.symm, hevr⟩
  · rintro ⟨hlt, hpresent, hname, o, ho, hsame, hevr⟩
    exact ⟨o, ⟨ho, hsame ▸ hname⟩, ⟨hlt, hsame.symm⟩, hpresent, hevr⟩

variable (s) in
def arrival (t : Trial) (id : PackageId) : Trial :=
  { t with
    present := ((s.displacedByObsoletes t id).foldl IdSet.erase
      ((s.displacedBuilds t id).foldl IdSet.erase t.present)).insert id
    obsoleted := ((s.displacedByObsoletes t id).map fun old => (id, old)).reverse ++ t.obsoleted }

@[simp] theorem mem_arrival :
    other ∈ (s.arrival t id).present ↔ (other ∈ t.present ∧
      other ∉ s.displacedBuilds t id ∧ other ∉ s.displacedByObsoletes t id) ∨ other = id := by
  simp only [arrival, IdSet.mem_insert, IdSet.mem_foldl_erase, and_assoc]

theorem foldlM_displaceBuild {olds : List PackageId} (h : olds.foldlM displaceBuild t = .ok t') :
    (∀ old ∈ olds, old ∉ t.pinned) ∧
      t' = { t with present := olds.foldl IdSet.erase t.present } := by
  induction olds generalizing t with
  | nil =>
    cases h
    exact ⟨by simp, rfl⟩
  | cons old olds ih =>
    rw [List.foldlM_cons, displaceBuild] at h
    split at h
    · cases h
    · rename_i hpinned
      have hrest := ih h
      exact ⟨List.forall_mem_cons.mpr ⟨hpinned, hrest.1⟩, hrest.2⟩

theorem foldlM_displaceObsolete {olds : List PackageId}
    (h : olds.foldlM (s.displaceObsolete id) t = .ok t') :
    (∀ old ∈ olds, old ∉ t.pinned ∧ old ∉ s.guarded) ∧
      t' = { t with
        present := olds.foldl IdSet.erase t.present
        obsoleted := (olds.map fun old => (id, old)).reverse ++ t.obsoleted } := by
  induction olds generalizing t with
  | nil =>
    cases h
    exact ⟨by simp, rfl⟩
  | cons old olds ih =>
    rw [List.foldlM_cons, displaceObsolete] at h
    split at h
    · cases h
    · rename_i hpinned
      split at h
      · cases h
      · rename_i hguarded
        have hrest := ih h
        refine ⟨List.forall_mem_cons.mpr ⟨⟨hpinned, hguarded⟩, hrest.1⟩, ?_⟩
        rw [hrest.2]
        simp

/-- A package comes in only if it may and if nothing that it displaces is to stay. -/
theorem add_eq_ok (h : s.add t id = .ok t') (habsent : id ∉ t.present) :
    id ∉ t.forbidden ∧ (∀ old ∈ s.displacedBuilds t id, old ∉ t.pinned) ∧
      (∀ old ∈ s.displacedByObsoletes t id, old ∉ t.pinned ∧ old ∉ s.guarded) ∧
      t' = s.arrival t id := by
  simp only [add, IdSet.contains_iff_mem, if_neg habsent] at h
  split at h
  · cases h
  · rename_i hforbidden
    cases hbuilds : (s.displacedBuilds t id).foldlM displaceBuild t with
    | error e =>
      rw [hbuilds] at h
      cases h
    | ok t₁ =>
      rw [hbuilds] at h
      obtain ⟨hpinned, rfl⟩ := foldlM_displaceBuild hbuilds
      cases hobsoletes : (s.displacedByObsoletes t id).foldlM (s.displaceObsolete id)
          { t with present := (s.displacedBuilds t id).foldl IdSet.erase t.present } with
      | error e =>
        simp only [bind, Except.bind, hobsoletes] at h
        cases h
      | ok t₂ =>
        simp only [bind, Except.bind, hobsoletes, pure, Except.pure] at h
        obtain ⟨hkept, rfl⟩ := foldlM_displaceObsolete hobsoletes
        cases h
        exact ⟨hforbidden, hpinned, hkept, rfl⟩

theorem add_of_mem (h : id ∈ t.present) : s.add t id = .ok t := by
  simp only [add, IdSet.contains_iff_mem, if_pos h]

end Search

end Depsolve
