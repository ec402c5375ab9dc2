import Depsolve.Proofs.Solver.Step
import Mathlib.Data.List.Perm.Subperm
/-!
# What an erase leaves

Where nothing is protected or chosen, a package whose requirement has lost its last provider is
itself erased, and nothing has to be taken back. So an erase leaves the largest set of installed
packages that can do without its targets, in whatever order the violations are met.
-/
namespace Depsolve

namespace Universe

variable {u : Universe} {gone gone' : PackageId → Prop} {there there' : IdSet} {p : PackageId}

/-- Installed packages that can be kept by themselves. Those that were sound when all was there
still have a provider for each of their requirements. -/
structure Stands (u : Universe) (there : IdSet) : Prop where
  installed : ∀ p ∈ there, p ∈ u.installed
  provided : ∀ p ∈ there, u.Sound u.installed.members p →
    ∀ d ∈ (u.get p).requires, ∃ q ∈ u.whatProvides d, q ∈ there

/-- A package can be kept without those that are gone. -/
def Outlasts (u : Universe) (gone : PackageId → Prop) (p : PackageId) : Prop :=
  ∃ there, u.Stands there ∧ (∀ q ∈ there, ¬ gone q) ∧ p ∈ there

/-- The largest set that can be kept without the packages that are gone. -/
structure Remains (u : Universe) (gone : PackageId → Prop) (there : IdSet) : Prop where
  stands : u.Stands there
  apart : ∀ p ∈ there, ¬ gone p
  largest : ∀ other, u.Stands other → (∀ p ∈ other, ¬ gone p) → ∀ p ∈ other, p ∈ there

theorem Remains.mem_iff (h : u.Remains gone there) : p ∈ there ↔ u.Outlasts gone p := by
  constructor
  · intro hp
    exact ⟨there, h.stands, h.apart, hp⟩
  · rintro ⟨other, hstands, hapart, hp⟩
    exact h.largest other hstands hapart p hp

theorem Remains.unique (h : u.Remains gone there) (h' : u.Remains gone there') :
    there = there' := by
  ext p
  rw [h.mem_iff, h'.mem_iff]

theorem Outlasts.mono (h : u.Outlasts gone p) (hless : ∀ q, gone' q → gone q) :
    u.Outlasts gone' p := by
  obtain ⟨there, hstands, hapart, hp⟩ := h
  exact ⟨there, hstands, fun q hq hgone => hapart q hq (hless q hgone), hp⟩

theorem remains_installed : u.Remains (fun _ => False) u.installed.members where
  stands := ⟨fun _ hp => PackageSet.mem_def.mpr hp, fun _ _ hsound => hsound.provided⟩
  apart _ _ := id
  largest _ hstands _ p hp := PackageSet.mem_def.mp (hstands.installed p hp)

end Universe

theorem IdSet.size_le_size {s t : IdSet} (h : ∀ id ∈ s, id ∈ t) : s.size ≤ t.size := by
  have hsubset : s.toList ⊆ t.toList :=
    fun id hid => IdSet.mem_toList.mpr (h id (IdSet.mem_toList.mp hid))
  exact (List.subperm_of_subset s.toList_nodup hsubset).length_le

namespace Search

open Universe

variable {s : Search} {r : Rules} {job : Job} {t t' : Trial} {v : Violation} {p : PackageId}
  {d : Dependency}

/-- Among installed packages a package that was sound can only miss a provider. -/
theorem firstViolation?_of_installed (hinstalled : ∀ p ∈ t.present, p ∈ s.initial)
    (hv : s.firstViolation? t = some v) :
    ∃ p d, v = .missing p d ∧ s.pool.Sound s.pool.installed.members p := by
  obtain ⟨p, hp, hviolation⟩ := List.exists_of_findSome?_eq_some hv
  obtain ⟨hpresent, htolerated⟩ := IdSet.mem_diff.mp (IdSet.mem_toList.mp hp)
  have hsound : s.pool.Sound s.pool.installed.members p := by
    by_contra hbroken
    exact htolerated (mem_tolerated.mpr ⟨mem_initial.mp (hinstalled p hpresent), hbroken⟩)
  have hpeaceful : ∀ d ∈ (s.pool.get p).conflicts, ∀ q ∈ s.pool.whatProvides d, q ∈ t.present →
      q = p :=
    fun d hd q hq hthere =>
      hsound.peaceful d hd q hq (PackageSet.mem_def.mp (mem_initial.mp (hinstalled q hthere)))
  rw [Links.violationOf?] at hviolation
  split at hviolation
  · rename_i need _
    cases hviolation
    exact ⟨p, need.1, rfl, hsound⟩
  · rw [s.links_eq, Links.findSome?_conflictsOf_eq_none.mpr hpeaceful] at hviolation
    cases hviolation

theorem advanceInPlace_missing (hr : r.eraseDependents = true) (hguarded : s.guarded = ∅)
    (hpinned : t.pinned = ∅) (hp : p ∈ s.initial) (stack : List Fork) :
    ∃ f, s.advanceInPlace r t (.missing p d) stack = .ok (t.without [p], f :: stack) := by
  have hallowed : s.removal r t p = .allowed := by
    rw [removal_eq_allowed, hguarded, hpinned]
    exact ⟨.inr hr, hp, IdSet.not_mem_empty p, IdSet.not_mem_empty p⟩
  have hrepairs : s.repairs r t (.missing p d) =
      .remove p :: (s.providers r t d).map Repair.add := by
    rw [repairs, missingRepairs, if_pos hallowed, if_pos hr, List.singleton_append]
  -- the trial is the same whether or not the other repairs call for a snapshot
  have hbase : (if (s.repairs r t (.missing p d)).length > 1 then some t else none).getD t = t := by
    split <;> rfl
  rw [hrepairs] at hbase
  simp only [advanceInPlace, hrepairs, tryInPlace, repairInPlace, hbase]
  exact ⟨_, rfl⟩

/-- Some packages are off, and nothing else that decisions are read off has changed. -/
structure Pared (t t' : Trial) : Prop where
  pinned : t'.pinned = t.pinned
  obsoleted : t'.obsoleted = t.obsoleted
  reasons : t'.reasons = t.reasons
  subset : ∀ p ∈ t'.present, p ∈ t.present

theorem Pared.refl (t : Trial) : Pared t t := ⟨rfl, rfl, rfl, fun _ hp => hp⟩

theorem Pared.trans {t₁ t₂ t₃ : Trial} (h : Pared t₁ t₂) (h' : Pared t₂ t₃) : Pared t₁ t₃ :=
  ⟨h'.pinned.trans h.pinned, h'.obsoleted.trans h.obsoleted, h'.reasons.trans h.reasons,
    fun p hp => h.subset p (h'.subset p hp)⟩

theorem settleInPlace_erasing {left : Nat} (hr : r.eraseDependents = true)
    (hguarded : s.guarded = ∅) (hpinned : t.pinned = ∅)
    (hinstalled : ∀ p ∈ t.present, p ∈ s.initial) (hleft : t.present.size < left)
    (stack : List Fork) :
    ∃ t' left', s.settleInPlace r left t stack = .settled t' left' ∧ Pared t t' ∧
      s.firstViolation? t' = none ∧ ∀ there, s.pool.Stands there →
        (∀ p ∈ there, p ∈ t.present) → ∀ p ∈ there, p ∈ t'.present := by
  induction left generalizing t stack with
  | zero => exact absurd hleft (Nat.not_lt_zero _)
  | succ left ih =>
    cases hv : s.firstViolation? t with
    | none =>
      refine ⟨t, left, ?_, .refl t, hv, fun _ _ hsubset => hsubset⟩
      simp only [settleInPlace, hv]
    | some v =>
      obtain ⟨p, d, rfl, hsound⟩ := firstViolation?_of_installed hinstalled hv
      obtain ⟨hp, hd, hmissing⟩ := firstViolation?_eq_missing hv
      obtain ⟨f, hadvance⟩ := advanceInPlace_missing (r := r) (d := d) hr hguarded hpinned
        (hinstalled p hp) stack
      have hsize : (t.without [p]).present.size < left := by
        have := IdSet.size_erase hp
        have hwithout : (t.without [p]).present = t.present.erase p := rfl
        rw [hwithout]
        omega
      have hshrinks : ∀ q ∈ (t.without [p]).present, q ∈ t.present :=
        fun q hq => (IdSet.mem_erase.mp hq).1
      obtain ⟨t', left', hsettle, hpared, hnone, hkeeps⟩ := ih (t := t.without [p]) hpinned
        (fun q hq => hinstalled q (hshrinks q hq)) hsize (f :: stack)
      refine ⟨t', left', ?_, ⟨hpared.pinned, hpared.obsoleted, hpared.reasons, fun q hq =>
        hshrinks q (hpared.subset q hq)⟩, hnone, fun there hstands hsubset => ?_⟩
      · simp only [settleInPlace, hv, hadvance]
        exact hsettle
      · refine hkeeps there hstands fun q hq => IdSet.mem_erase.mpr ⟨hsubset q hq, ?_⟩
        -- a set that can be kept by itself does not hold a package that misses a provider
        rintro rfl
        obtain ⟨c, hprovides, hc⟩ := hstands.provided q hq hsound d hd
        exact hmissing c hprovides (hsubset c hc)

theorem takeOff_of_unpinned {ids : List PackageId} (h : ∀ id ∈ ids, id ∉ t.pinned) :
    takeOff t ids = .ok (t.without ids) := by
  induction ids generalizing t with
  | nil => rfl
  | cons id ids ih =>
    obtain ⟨hid, hrest⟩ := List.forall_mem_cons.mp h
    rw [takeOff]
    exact (if_neg hid).trans (ih hrest)

theorem mem_without {ids : List PackageId} :
    p ∈ (t.without ids).present ↔ p ∈ t.present ∧ p ∉ ids :=
  IdSet.mem_foldl_erase ids t.present p

variable {gone : PackageId → Prop} {left : Nat}

theorem targets_eq_nil_iff (ht : s.pool.Remains gone t.present) :
    s.targets job t = [] ↔ ∀ p ∈ s.candidates job, ¬ s.pool.Outlasts gone p := by
  rw [List.eq_nil_iff_forall_not_mem]
  refine forall_congr' fun p => ?_
  have hinitial : p ∈ t.present → p ∈ s.initial :=
    fun hp => mem_initial.mpr (ht.stands.installed p hp)
  rw [mem_targets, ← ht.mem_iff]
  constructor
  · intro hnot hcandidate hp
    exact hnot ⟨hcandidate, hinitial hp, hp⟩
  · rintro hnot ⟨hcandidate, -, hp⟩
    exact hnot hcandidate hp

theorem erase_of_spent (ht : s.pool.Remains gone t.present)
    (hspent : ∀ p ∈ s.candidates job, ¬ s.pool.Outlasts gone p) :
    (s.erase r job t left).result = .error (.notApplicable .noneInstalled) := by
  have htargets := (targets_eq_nil_iff ht).mpr hspent
  rw [targets] at htargets
  simp only [erase, htargets]
  rfl

/-- An erase that finds one of its packages leaves what can do without all of them. -/
theorem erase_remains (hguarded : s.guarded = ∅) (hpinned : t.pinned = ∅)
    (hclean : r.cleanDeps = false) (hleft : s.initial.size ≤ left)
    (ht : s.pool.Remains gone t.present)
    (hfound : ¬ ∀ p ∈ s.candidates job, ¬ s.pool.Outlasts gone p) :
    ∃ t', (s.erase r job t left).result = .ok t' ∧ Pared t t' ∧
      s.pool.Remains (fun p => gone p ∨ p ∈ s.candidates job) t'.present := by
  have hsome : s.targets job t ≠ [] := fun hnil => hfound ((targets_eq_nil_iff ht).mp hnil)
  let bare := t.without (s.targets job t)
  have htake : takeOff t (s.targets job t) = .ok bare :=
    takeOff_of_unpinned fun id _ => hpinned ▸ IdSet.not_mem_empty id
  have hinstalled : ∀ p ∈ bare.present, p ∈ s.initial :=
    fun p hp => mem_initial.mpr (ht.stands.installed p (mem_without.mp hp).1)
  have hsize : bare.present.size < left := by
    obtain ⟨p, hp⟩ := List.exists_mem_of_ne_nil _ hsome
    have hfewer : bare.present.size ≤ (s.initial.erase p).size := by
      refine IdSet.size_le_size fun q hq => IdSet.mem_erase.mpr ⟨hinstalled q hq, ?_⟩
      rintro rfl
      exact (mem_without.mp hq).2 hp
    have := IdSet.size_erase (mem_targets.mp hp).2.1
    omega
  obtain ⟨t', left', hsettle, hpared, hnone, hkeeps⟩ := settleInPlace_erasing
    (r := { r with eraseDependents := true }) (t := bare) rfl hguarded hpinned hinstalled hsize []
  have hresult : (s.erase r job t left).result = .ok t' := by
    have hnonempty : (s.targets job t).isEmpty = false := List.isEmpty_eq_false_iff.mpr hsome
    rw [targets] at hnonempty htake
    rw [← settle, hclean] at hsettle
    simp only [erase, hnonempty, htake, hclean, hsettle]
    rfl
  have hsubset : ∀ p ∈ t'.present, p ∈ t.present ∧ p ∉ s.targets job t :=
    fun p hp => mem_without.mp (hpared.subset p hp)
  refine ⟨t', hresult, ⟨hpared.pinned, hpared.obsoleted, hpared.reasons,
    fun p hp => (hsubset p hp).1⟩, ⟨fun p hp => ?_, fun p hp hsound => ?_⟩, ?_, ?_⟩
  · exact ht.stands.installed p (hsubset p hp).1
  · have htolerated : p ∉ s.tolerated := fun h => (mem_tolerated.mp h).2 hsound
    exact (firstViolation?_eq_none.mp hnone p hp htolerated).provided
  · rintro p hp (hgone | hcandidate)
    · exact ht.apart p (hsubset p hp).1 hgone
    · have hinitial := hinstalled p (hpared.subset p hp)
      exact (hsubset p hp).2 (mem_targets.mpr ⟨hcandidate, hinitial, (hsubset p hp).1⟩)
  · intro other hstands hapart
    refine hkeeps other hstands fun p hp => mem_without.mpr ⟨?_, fun htarget => ?_⟩
    · exact ht.largest other hstands (fun q hq hgone => hapart q hq (.inl hgone)) p hp
    · exact hapart p hp (.inr (mem_targets.mp htarget).1)

end Search

end Depsolve
