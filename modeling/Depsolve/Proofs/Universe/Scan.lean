import Depsolve.Proofs.Dependency.Overlap
import Depsolve.Proofs.Universe.Numbering
import Depsolve.Query
/-!
# Indexes and scans

The indexes of a universe find what a scan over all packages finds, in the order of the
scan. A package is found under its own name through the provide that it has of itself.
-/
namespace Depsolve

namespace NameIndex

variable {names : Package → List String} {packages : List Package} {index : NameIndex}

theorem knows_cons (n name : String) (ids : List PackageId) (index : NameIndex) :
    knows ((n, ids) :: index) name = true ↔ name = n ∨ index.knows name = true := by
  by_cases h : name = n
  · subst h
    simp [knows]
  · have hne : (name == n) = false := beq_false_of_ne h
    simp [knows, List.lookup_cons, hne, h]

theorem knows_file (name other : String) (id : PackageId) (index : NameIndex) :
    (index.file name id).knows other = true ↔ other = name ∨ index.knows other = true := by
  induction index with
  | nil => simp [file, knows_cons]
  | cons entry rest ih =>
    obtain ⟨n, ids⟩ := entry
    by_cases h : n = name
    · subst h
      simp [file, knows_cons]
    · simp only [file, if_neg h, knows_cons, ih]
      exact or_left_comm

theorem knows_fileAll (names : List String) (id : PackageId) (index : NameIndex) (other : String) :
    (names.foldr (fun n index => index.file n id) index).knows other = true ↔
      other ∈ names ∨ index.knows other = true := by
  induction names with
  | nil => simp
  | cons n names ih => rw [List.foldr_cons, knows_file, ih, List.mem_cons, or_assoc]

theorem knows_ofPackages {name : String} :
    (ofPackages names packages).knows name = true ↔ ∃ p ∈ packages, name ∈ names p := by
  induction packages with
  | nil => simp [ofPackages, knows]
  | cons p packages ih =>
    have hcons : ofPackages names (p :: packages) =
        (names p).foldr (fun n index => index.file n p.id) (ofPackages names packages) := rfl
    rw [hcons, knows_fileAll, ih]
    simp

end NameIndex

/-- A package provides itself to what its own build matches. -/
theorem Dependency.overlaps_selfProvide (d : Dependency) (p : Package) :
    d.overlaps p.selfProvide = (d.name == p.name && d.matchesEvr p.evr) :=
  d.overlaps_exact p.name p.evr

namespace Universe

def scan (u : Universe) (p : Package → Bool) : List PackageId :=
  (List.range u.size).filter fun id => p (u.get id)

variable {u : Universe}

theorem mem_scan {p : Package → Bool} {id : PackageId} :
    id ∈ u.scan p ↔ id < u.size ∧ p (u.get id) = true := by
  simp [scan]

theorem scan_pairwise (p : Package → Bool) : (u.scan p).Pairwise (· < ·) :=
  List.pairwise_lt_range.filter _

theorem eq_scan {p : Package → Bool} {ids : List PackageId} (hids : ids.Pairwise (· < ·))
    (hmem : ∀ id, id ∈ ids ↔ id < u.size ∧ p (u.get id) = true) : ids = u.scan p := by
  apply hids.eq_of_mem_iff (scan_pairwise p)
  intro id
  rw [hmem, mem_scan]

theorem byName_eq_scan (name : String) : u.byName name = u.scan fun p => p.name == name := by
  apply eq_scan (byName_pairwise name)
  intro id
  rw [mem_byName, beq_iff_eq]

theorem whatProvides_eq_scan (d : Dependency) :
    u.whatProvides d = u.scan fun p => p.providesDep d :=
  eq_scan (whatProvides_pairwise d) fun _ => mem_whatProvides

theorem result_all_provides (d : Dependency) :
    ((Query.all u).filter (.provides d)).result.toList = u.whatProvides d := by
  rw [whatProvides_eq_scan]
  apply eq_scan (PackageSet.toList_pairwise _)
  intro id
  have hfilter : ((Query.all u).filter (.provides d)).result =
      u.fullSet.filter fun id => (u.get id).providesDep d := rfl
  rw [hfilter, PackageSet.mem_toList, PackageSet.mem_filter, fullSet, PackageSet.mem_full]

theorem knows_iff {name : String} : u.knows name = true ↔
    ∃ p ∈ u.packages.toList, p.name = name ∨ ∃ x ∈ p.provides, x.name = name := by
  rw [knows, Bool.or_eq_true, u.nameIndex_eq, u.provideIndex_eq, NameIndex.knows_ofPackages,
    NameIndex.knows_ofPackages, ← exists_or]
  simp only [List.mem_singleton, List.mem_map, ← and_or_left, eq_comm (a := name)]

section Build

variable {generation : Nat} {repositories : List Repository} {excludes : List String}
  {arch : Option String}

theorem selfProvide_mem (h : build generation repositories excludes arch = .ok u) {p : Package}
    (hp : p ∈ u.packages.toList) : p.selfProvide ∈ p.provides := by
  obtain ⟨hid, hget⟩ := eq_get_of_mem hp
  obtain ⟨entry, -, hread⟩ := read_of_build h hid
  rw [hget] at hread
  obtain ⟨ds, -, hprovides⟩ := hread.provides
  rw [hprovides]
  exact List.mem_cons_self

theorem mem_installed_iff_system (h : build generation repositories excludes arch = .ok u)
    {id : PackageId} : id ∈ u.installed ↔
      ∃ entry, (Entry.ofRepositories (sortBy repositoryLe repositories))[id]? = some entry ∧
        entry.repo.system = true := by
  rw [mem_installed]
  constructor
  · rintro ⟨hid, hin⟩
    obtain ⟨entry, hentry, hread⟩ := read_of_build h hid
    exact ⟨entry, hentry, hread.installed ▸ hin⟩
  · rintro ⟨entry, hentry, hsystem⟩
    have hid : id < u.size := by
      have hlength := (readAs_of_build h).length_eq
      obtain ⟨hlt, -⟩ := List.getElem?_eq_some_iff.mp hentry
      rwa [hlength] at hlt
    obtain ⟨entry', hentry', hread⟩ := read_of_build h hid
    cases hentry.symm.trans hentry'
    exact ⟨hid, hread.installed.trans hsystem⟩

theorem mem_considered_iff (h : build generation repositories excludes arch = .ok u)
    {id : PackageId} : id ∈ u.considered ↔ id < u.size ∧ (id ∈ u.installed ∨
      ∀ exclude ∈ excludes, (Glob.compile exclude).accepts (u.get id).name = false) := by
  have hvisible : (u.get id).visible excludes = true ↔ (u.get id).installed = true ∨
      ∀ exclude ∈ excludes, (Glob.compile exclude).accepts (u.get id).name = false := by
    simp [Package.visible]
  rw [mem_installed_iff_flag, ← hvisible]
  obtain ⟨packages, ids, -, rfl⟩ := build_eq_ok.mp h
  rw [← PackageSet.mem_toList, considered_ofPackages, List.mem_map,
    ← exists_mem_packages (P := fun p => p.visible excludes = true)]
  constructor
  · rintro ⟨p, hp, rfl⟩
    obtain ⟨hin, hp⟩ := List.mem_filter.mp hp
    exact ⟨p, hin, rfl, hp⟩
  · rintro ⟨p, hin, rfl, hp⟩
    exact ⟨p, List.mem_filter.mpr ⟨hin, hp⟩, rfl⟩

/-- Each index of a universe agrees with a scan, and each set with what the records and the
excludes say. -/
theorem build_indexed (h : build generation repositories excludes arch = .ok u) :
    (∀ name, u.byName name = u.scan (fun p => p.name == name) ∧
      (u.byName name).Pairwise (· < ·)) ∧
    (∀ d, u.whatProvides d = u.scan (fun p => p.providesDep d) ∧
      (u.whatProvides d).Pairwise (· < ·) ∧
      ((Query.all u).filter (.provides d)).result.toList = u.whatProvides d) ∧
    (∀ name, u.knows name = true ↔
      ∃ p ∈ u.packages.toList, p.name = name ∨ ∃ x ∈ p.provides, x.name = name) ∧
    (∀ d, ∀ p ∈ u.packages.toList, p.name = d.name → d.matchesEvr p.evr = true →
      p.selfProvide ∈ p.provides ∧ d.overlaps p.selfProvide = true ∧ p.id ∈ u.whatProvides d) ∧
    (∀ id, id ∈ u.installed ↔
      ∃ entry, (Entry.ofRepositories (sortBy repositoryLe repositories))[id]? = some entry ∧
        entry.repo.system = true) ∧
    ∀ id, id ∈ u.considered ↔ id < u.size ∧ (id ∈ u.installed ∨
      ∀ exclude ∈ excludes, (Glob.compile exclude).accepts (u.get id).name = false) := by
  refine ⟨fun name => ⟨byName_eq_scan name, byName_pairwise name⟩,
    fun d => ⟨whatProvides_eq_scan d, whatProvides_pairwise d, result_all_provides d⟩,
    fun name => knows_iff, ?_, fun id => mem_installed_iff_system h, fun id => mem_considered_iff h⟩
  intro d p hp hname hmatch
  have hself := selfProvide_mem h hp
  have hoverlaps : d.overlaps p.selfProvide = true := by
    rw [Dependency.overlaps_selfProvide, hname, hmatch, beq_self_eq_true, Bool.true_and]
  refine ⟨hself, hoverlaps, ?_⟩
  rw [mem_whatProvides_iff, (eq_get_of_mem hp).2]
  exact List.any_eq_true.mpr ⟨p.selfProvide, hself, hoverlaps⟩

end Build

/-- One codec is installed and two are available, of which one is excluded. -/
def codecShelf : List Repository :=
  [⟨"base", defaultPriority, false,
      [.noarch "codec-fast" "2" [("provides", "codec")],
        .noarch "codec-slow" "1" [("provides", "codec")]]⟩,
    ⟨systemRepository, defaultPriority, true, [.noarch "codec" "1"]⟩]

theorem codecShelf_indexed : ∃ u, build 1 codecShelf ["codec-f*"] = .ok u ∧
    u.whatProvides { name := "codec" } = [0, 1, 2] ∧
    u.scan (fun p => p.providesDep { name := "codec" }) = [0, 1, 2] ∧
    0 ∈ u.installed ∧ 1 ∉ u.considered ∧ 2 ∈ u.considered := by
  have hbuild : build 1 codecShelf ["codec-f*"] =
      .ok ((build 1 codecShelf ["codec-f*"]).toOption.get (by decide +kernel)) :=
    eq_ok_of_toOption (Option.some_get _).symm
  obtain ⟨-, hprovides, -, -, -, -⟩ := build_indexed hbuild
  obtain ⟨hscan, -, -⟩ := hprovides { name := "codec" }
  refine ⟨_, hbuild, ?_⟩
  rw [← hscan]
  decide +kernel

end Universe

end Depsolve
