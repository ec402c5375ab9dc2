import Depsolve.Plan.Materialize
import Depsolve.Proofs.Universe.Exclusion
/-!
# Universes of two generations

The generation tells sets of different universes apart and does nothing else. Universes
that differ in it alone have the same packages at the same places and the same indexes,
and decisions about them are laid out as the same plan.
-/
namespace Depsolve

/-- Two universes of which at most the generation differs. -/
structure Universe.Alike (u v : Universe) : Prop where
  packages : v.packages = u.packages
  repositories : v.repositories = u.repositories
  considered : v.considered.members = u.considered.members
  nativeArch : v.nativeArch = u.nativeArch

namespace Universe

variable {u v : Universe}

namespace Alike

variable (h : u.Alike v)

include h

theorem get : v.get = u.get := by
  funext id
  rw [Universe.get, h.packages, Universe.get]

theorem size : v.size = u.size := congrArg Array.size h.packages

theorem nameIndex : v.nameIndex = u.nameIndex := by
  rw [v.nameIndex_eq, h.packages, u.nameIndex_eq]

theorem provideIndex : v.provideIndex = u.provideIndex := by
  rw [v.provideIndex_eq, h.packages, u.provideIndex_eq]

theorem installed : v.installed.members = u.installed.members := by
  ext id
  rw [← PackageSet.mem_def, ← PackageSet.mem_def, mem_installed_iff_flag, mem_installed_iff_flag,
    h.get]

theorem repoPriority (repo : String) : v.repoPriority repo = u.repoPriority repo := by
  rw [Universe.repoPriority, h.repositories, Universe.repoPriority]

theorem embeds : u.Embeds v (RelEmbedding.refl _) where
  content i := congrArg Package.content (congrFun h.get i)
  lt_size i := by rw [RelEmbedding.refl_apply, h.size]
  considered id := by
    rw [PackageSet.mem_def, h.considered, ← PackageSet.mem_def]
    exact ⟨fun hid => ⟨id, hid, rfl⟩, fun ⟨i, hi, heq⟩ => heq ▸ hi⟩
  repoPriority := h.repoPriority
  nativeArch := h.nativeArch

end Alike

theorem ofPackages_alike (generation generation' : Nat) (packages : List Package)
    (ids : packages.map Package.id = List.range packages.length)
    (repositories : List (String × Int)) (excludes : List Glob) (arch : Option String) :
    (ofPackages generation packages ids repositories excludes arch).Alike
      (ofPackages generation' packages ids repositories excludes arch) where
  packages := rfl
  repositories := rfl
  considered := by
    ext id
    have hmem : ∀ g, id ∈ (ofPackages g packages ids repositories excludes arch).considered ↔
        id < packages.length ∧ id ∉ (hidden packages excludes).map Package.id := by
      intro g
      rw [← PackageSet.mem_full (g := g)]
      exact PackageSet.mem_foldl_remove _ _ id
    rw [← PackageSet.mem_def, ← PackageSet.mem_def, hmem, hmem]
  nativeArch := rfl

theorem build_eq_error {generation : Nat} {repositories : List Repository}
    {excludes : List String} {arch : Option String} {e : LoadError} :
    build generation repositories excludes arch = .error e ↔
      readRepositories 0 (sortBy repositoryLe repositories) = .error e := by
  simp only [build]
  split
  · next e' herror => rw [herror, Except.error.injEq, Except.error.injEq]
  · next packages hread =>
    constructor
    · intro h
      cases h
    · intro herror
      cases hread.symm.trans herror

section Build

variable {generation : Nat} {repositories repositories' : List Repository}
  {excludes : List String} {arch : Option String} (generation' : Nat)
  (hsorted : sortBy repositoryLe repositories' = sortBy repositoryLe repositories)

include hsorted

/-- Repositories that are sorted alike make the same universe in another generation. -/
theorem exists_build_alike (h : build generation repositories excludes arch = .ok u) :
    ∃ v, build generation' repositories' excludes arch = .ok v ∧ u.Alike v := by
  obtain ⟨packages, ids, hread, rfl⟩ := build_eq_ok.mp h
  refine ⟨_, build_eq_ok.mpr ⟨packages, ids, hsorted ▸ hread, rfl⟩, ?_⟩
  rw [hsorted]
  exact ofPackages_alike ..

theorem build_error_iff (e : LoadError) :
    build generation' repositories' excludes arch = .error e ↔
      build generation repositories excludes arch = .error e := by
  rw [build_eq_error, build_eq_error, hsorted]

end Build

end Universe

/-! ### Plans -/

namespace Plan

variable {u v : Universe} (h : u.Alike v)

include h

theorem newest?_alike : newest? v = newest? u := by
  funext ids
  rw [newest?, h.get, newest?]

theorem followed?_alike : followed? v = followed? u := by
  funext outgoing id
  rw [followed?, h.get, newest?_alike h, followed?]

theorem classify_alike (reasons : Reasons) (ids : List PackageId) (outgoing : IdSet) :
    classify v reasons ids outgoing = classify u reasons ids outgoing := by
  induction ids generalizing outgoing with
  | nil => rfl
  | cons id rest ih =>
    simp only [classify, followed?_alike h, replacementKind, h.get, ih]

theorem compareNames_alike : v.compareNames = u.compareNames := by
  funext a b
  rw [Universe.compareNames, h.get, Universe.compareNames]

theorem countDown_alike : Queue.countDown v = Queue.countDown u := by
  funext q id
  simp only [Queue.countDown, enqueue, compareNames_alike h]

theorem drain_alike (pairs : List (PackageId × PackageId)) (fuel : Nat) (q : Queue) :
    Queue.drain v pairs fuel q = Queue.drain u pairs fuel q := by
  induction fuel generalizing q with
  | zero => rfl
  | succ fuel ih => simp only [Queue.drain, countDown_alike h, ih]

theorem arrange_alike (order : List (PackageId × PackageId)) (ids : List PackageId) :
    arrange v order ids = arrange u order ids := by
  simp only [arrange, Queue.start, drain_alike h, compareNames_alike h]

theorem detected_alike (incoming : List PackageId) (o : Obsoletions) :
    detected v incoming o = detected u incoming o := by
  rw [detected, h.get, detected]

theorem obsoleteOps_alike (pairs : List (PackageId × PackageId)) :
    obsoleteOps v pairs = obsoleteOps u pairs := by
  funext new
  simp only [obsoleteOps, h.get, compareNames_alike h]

theorem reasonOps_alike (d : Decisions) : reasonOps v d = reasonOps u d := by
  simp only [reasonOps, h.get, compareNames_alike h]

theorem materialize_alike (d : Decisions) : materialize v d = materialize u d := by
  simp only [materialize, h.get, classify_alike h, detected_alike h, compareNames_alike h,
    obsoleteOps_alike h, reasonOps_alike h, arrange_alike h]

end Plan

end Depsolve
