import Depsolve.Policy
import Depsolve.Proofs.Universe.Lookup
import Depsolve.Proofs.Universe.Renaming
/-!
# A universe within another

A universe is embedded in another one that has its packages in their order and
considers no more than these. The indexes of the larger universe list further
packages, but a look for packages that are considered finds the renamed ones.
-/
namespace Depsolve

theorem PackageSet.members_eq_rename {s t : PackageSet} {f : Renaming}
    (h : ∀ id, id ∈ t ↔ ∃ i ∈ s, f i = id) : t.members = s.members.rename f :=
  IdSet.rename_congr fun id => by simpa only [mem_def] using h id

/-- A package apart from its place. -/
def Package.content (p : Package) : Package := { p with id := 0 }

/-- Each package of `v` has a place in `u`, and `u` considers only packages of `v`. -/
structure Universe.Embeds (v u : Universe) (f : Renaming) : Prop where
  content : ∀ i, (u.get (f i)).content = (v.get i).content
  lt_size : ∀ i, f i < u.size ↔ i < v.size
  considered : ∀ id, id ∈ u.considered ↔ ∃ i ∈ v.considered, f i = id
  repoPriority : ∀ repo, u.repoPriority repo = v.repoPriority repo
  nativeArch : u.nativeArch = v.nativeArch

namespace Universe.Embeds

variable {v u : Universe} {f : Renaming} (h : v.Embeds u f)

include h

theorem apply_get {α : Type} {g : Package → α} (hg : ∀ p, g p.content = g p) (i : PackageId) :
    g (u.get (f i)) = g (v.get i) := by
  rw [← hg (u.get (f i)), h.content, hg]

theorem apply_get₂ {α : Type} {g : Package → Package → α}
    (hg : ∀ p q, g p.content q.content = g p q) (i j : PackageId) :
    g (u.get (f i)) (u.get (f j)) = g (v.get i) (v.get j) := by
  rw [← hg (u.get (f i)), h.content, h.content, hg]

theorem name (i : PackageId) : (u.get (f i)).name = (v.get i).name :=
  h.apply_get (fun _ => rfl) i

theorem evr (i : PackageId) : (u.get (f i)).evr = (v.get i).evr :=
  h.apply_get (fun _ => rfl) i

theorem installed_flag (i : PackageId) : (u.get (f i)).installed = (v.get i).installed :=
  h.apply_get (fun _ => rfl) i

theorem nevra (i : PackageId) : (u.get (f i)).nevra = (v.get i).nevra :=
  h.apply_get (fun _ => rfl) i

theorem mem_byName (name : String) (i : PackageId) : f i ∈ u.byName name ↔ i ∈ v.byName name := by
  rw [Universe.mem_byName, Universe.mem_byName, h.lt_size, h.name]

theorem mem_whatProvides (d : Dependency) (i : PackageId) :
    f i ∈ u.whatProvides d ↔ i ∈ v.whatProvides d := by
  have hprovides := h.apply_get (g := fun p => p.providesDep d) (fun _ => rfl) i
  rw [mem_whatProvides_iff, mem_whatProvides_iff, hprovides]

theorem filter_byName (name : String) {p q : PackageId → Bool} (hp : ∀ i, p (f i) = q i)
    (hrange : ∀ id, p id = true → ∃ i, f i = id) :
    (u.byName name).filter p = ((v.byName name).filter q).map f :=
  filter_eq_map_filter (byName_pairwise name) (byName_pairwise name) (h.mem_byName name) hp hrange

theorem any_byName (name : String) {p q : PackageId → Bool} (hp : ∀ i, p (f i) = q i)
    (hrange : ∀ id, p id = true → ∃ i, f i = id) :
    (u.byName name).any p = (v.byName name).any q :=
  any_eq_any (h.mem_byName name) hp hrange

theorem filter_whatProvides (d : Dependency) {p q : PackageId → Bool} (hp : ∀ i, p (f i) = q i)
    (hrange : ∀ id, p id = true → ∃ i, f i = id) :
    (u.whatProvides d).filter p = ((v.whatProvides d).filter q).map f :=
  filter_eq_map_filter (whatProvides_pairwise d) (whatProvides_pairwise d) (h.mem_whatProvides d)
    hp hrange

theorem considered_members : u.considered.members = v.considered.members.rename f :=
  PackageSet.members_eq_rename h.considered

theorem contains_considered (i : PackageId) :
    u.considered.contains (f i) = v.considered.contains i := by
  simp only [PackageSet.contains_eq_members, h.considered_members, IdSet.contains_rename]

theorem exists_of_considered {id : PackageId} (hid : u.considered.contains id = true) :
    ∃ i, f i = id := by
  obtain ⟨i, -, heq⟩ := (h.considered id).mp hid
  exact ⟨i, heq⟩

theorem considered_toList : u.considered.toList = v.considered.toList.map f := by
  simp only [PackageSet.toList_eq_members, h.considered_members, IdSet.toList_rename]

/-- Installed packages are considered, so they have their place in both universes. -/
theorem installed_members : u.installed.members = v.installed.members.rename f := by
  apply PackageSet.members_eq_rename
  intro id
  constructor
  · intro hid
    obtain ⟨i, rfl⟩ := h.exists_of_considered (u.installed_considered id hid)
    have hflag := mem_installed_iff_flag.mp hid
    exact ⟨i, mem_installed_iff_flag.mpr ((h.installed_flag i).symm.trans hflag), rfl⟩
  · rintro ⟨i, hi, rfl⟩
    have hflag := mem_installed_iff_flag.mp hi
    exact mem_installed_iff_flag.mpr ((h.installed_flag i).trans hflag)

theorem compare (p : Policy) (a b : PackageId) : p.compare u (f a) (f b) = p.compare v a b := by
  have harch := h.apply_get (g := Package.arch) (fun _ => rfl)
  have hrepo := h.apply_get (g := Package.repo) (fun _ => rfl)
  simp only [Policy.compare, h.installed_flag, hrepo, h.repoPriority, h.evr, harch, compare_rename]

theorem prefer (p : Policy) (ids : List PackageId) :
    p.prefer u (ids.map f) = (p.prefer v ids).map f := by
  rw [Policy.prefer, sortCmp_map (h.compare p), eraseReps_map f.injective, Policy.prefer]

theorem preferNamed (p : Policy) (name : String) (ids : List PackageId) :
    p.preferNamed u name (ids.map f) = (p.preferNamed v name ids).map f := by
  simp only [Policy.preferNamed, h.prefer, List.filter_map, Function.comp_def, h.name,
    List.map_append]

end Universe.Embeds

end Depsolve
