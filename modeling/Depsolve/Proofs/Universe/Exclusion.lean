import Depsolve.Proofs.Universe.Embedding
import Depsolve.Universe.Build
import Mathlib.Data.List.GetD
/-!
# Excluding records

Excluded packages stay in a universe, but they are not considered. The universe of
the records that are left when the excluded ones are dropped has exactly the
considered packages, numbered without gaps, so it is embedded in the first one.
-/
namespace Depsolve

/-- Whether an exclude names a record. -/
def Record.excludedBy (excludes : List String) (r : Record) : Bool :=
  (r.get? "name").any fun name =>
    (excludes.map Glob.compile).any fun pattern => pattern.accepts (trim name)

/-- A repository without the records that excludes hide. The installed system keeps all. -/
def Repository.without (excludes : List String) (repo : Repository) : Repository :=
  { repo with
    records := repo.records.filter fun r => repo.system || !r.excludedBy excludes }

namespace Package

/-- Whether no exclude hides a package. -/
def visible (excludes : List String) (p : Package) : Bool :=
  p.installed || !(excludes.map Glob.compile).any (·.accepts p.name)

theorem requiredField_eq_ok {repo field value : String} {index : Nat} {r : Record} :
    requiredField repo index r field = .ok value ↔
      (r.get? field).map trim = some value ∧ value ≠ "" := by
  rw [requiredField]
  split
  · rename_i hfield
    simp [hfield]
  · rename_i hfield
    simp only [hfield, Option.some.injEq, reduceCtorEq, false_iff]
    rintro ⟨rfl, hne⟩
    exact hne rfl
  · rename_i text hne hfield
    simp only [hfield, Option.some.injEq, Except.ok.injEq]
    constructor
    · rintro rfl
      exact ⟨rfl, hne⟩
    · exact And.left

theorem ofRecord_elsewhere {id : PackageId} {repo repo' : Repository} {index : Nat}
    {r : Record} {p : Package} (h : ofRecord id repo index r = .ok p) (id' : PackageId)
    (index' : Nat) (hid : repo'.id = repo.id) (hsystem : repo'.system = repo.system) :
    ofRecord id' repo' index' r = .ok { p with id := id' } := by
  have hfield : ∀ {field value}, requiredField repo.id index r field = .ok value →
      requiredField repo.id index' r field = .ok value := fun h =>
    requiredField_eq_ok.mpr (requiredField_eq_ok.mp h)
  have hread := Universe.ofRecord_eq_ok.mp h
  apply Universe.ofRecord_eq_ok.mpr
  exact {
    id_eq := rfl
    repo_eq := hread.repo_eq.trans hid.symm
    installed := hread.installed.trans hsystem.symm
    name := hid ▸ hfield hread.name
    version := hid ▸ hfield hread.version
    release := hid ▸ hfield hread.release
    arch := hid ▸ hfield hread.arch
    epoch := hid ▸ hread.epoch
    reason := hid ▸ hread.reason
    provides := hid ▸ hread.provides
    requires := hid ▸ hread.requires
    conflicts := hid ▸ hread.conflicts
    obsoletes := hid ▸ hread.obsoletes }

theorem ofRecord_visible {id : PackageId} {repo : Repository} {index : Nat} {r : Record}
    {p : Package} (h : ofRecord id repo index r = .ok p) (excludes : List String) :
    p.visible excludes = (repo.system || !r.excludedBy excludes) := by
  have hread := Universe.ofRecord_eq_ok.mp h
  obtain ⟨text, htext, hname⟩ :=
    Option.map_eq_some_iff.mp (requiredField_eq_ok.mp hread.name).1
  rw [visible, Record.excludedBy, htext, Option.any_some, hread.installed, hname]

end Package

namespace Universe

variable {excludes : List String}

/-- Reading on after excluded records were dropped gives the visible packages, renumbered. -/
theorem readRecords_filter (excludes : List String) {repo : Repository} {first index : Nat}
    {records : List Record} {ps : List Package}
    (h : readRecords repo first index records = .ok ps) (repo' : Repository)
    (hid : repo'.id = repo.id) (hsystem : repo'.system = repo.system) (first' index' : Nat) :
    ∃ qs, readRecords repo' first' index'
        (records.filter fun r => repo.system || !r.excludedBy excludes) = .ok qs ∧
      qs.map Package.content = (ps.filter (Package.visible excludes)).map Package.content := by
  induction records generalizing index index' ps with
  | nil =>
    cases h
    exact ⟨[], rfl, rfl⟩
  | cons r rest ih =>
    obtain ⟨p, hp, h⟩ := bind_eq_ok h
    obtain ⟨rs, hrs, h⟩ := bind_eq_ok h
    cases h
    rw [List.filter_cons, List.filter_cons, Package.ofRecord_visible hp]
    -- only a record that is left takes a number
    split
    · obtain ⟨qs, hqs, hcontent⟩ := ih hrs (index' + 1)
      have hread := Package.ofRecord_elsewhere hp (first' + index') index' hid hsystem
      refine ⟨{ p with id := first' + index' } :: qs, ?_, ?_⟩
      · simp only [readRecords, hread, hqs, bind, Except.bind, pure, Except.pure]
      · rw [List.map_cons, List.map_cons, hcontent]
        rfl
    · exact ih hrs index'

theorem readRepositories_without (excludes : List String) {first : Nat}
    {repos : List Repository} {ps : List Package} (h : readRepositories first repos = .ok ps)
    (first' : Nat) :
    ∃ qs, readRepositories first' (repos.map (Repository.without excludes)) = .ok qs ∧
      qs.map Package.content = (ps.filter (Package.visible excludes)).map Package.content := by
  induction repos generalizing first first' ps with
  | nil =>
    cases h
    exact ⟨[], rfl, rfl⟩
  | cons repo rest ih =>
    obtain ⟨ps₁, hps₁, h⟩ := bind_eq_ok h
    obtain ⟨ps₂, hps₂, h⟩ := bind_eq_ok h
    cases h
    obtain ⟨qs₁, hqs₁, hfirst⟩ :=
      readRecords_filter excludes hps₁ (repo.without excludes) rfl rfl first' 0
    obtain ⟨qs₂, hqs₂, hrest⟩ := ih hps₂ (first' + qs₁.length)
    refine ⟨qs₁ ++ qs₂, ?_, ?_⟩
    · have hread : readRecords (repo.without excludes) first' 0 (repo.without excludes).records =
        .ok qs₁ := hqs₁
      simp only [List.map_cons, readRepositories, hread, hqs₂, bind, Except.bind, pure,
        Except.pure]
    · rw [List.filter_append, List.map_append, List.map_append, hfirst, hrest]

theorem build_eq_ok {generation : Nat} {repositories : List Repository} {arch : Option String}
    {u : Universe} : build generation repositories excludes arch = .ok u ↔
      ∃ packages ids, readRepositories 0 (sortBy repositoryLe repositories) = .ok packages ∧
        u = ofPackages generation packages ids
          (Association.ofList ((sortBy repositoryLe repositories).map fun r => (r.id, r.priority)))
          (excludes.map Glob.compile) arch := by
  simp only [build]
  constructor
  · intro h
    split at h
    · cases h
    · rename_i packages hread
      cases h
      exact ⟨packages, _, hread, rfl⟩
  · rintro ⟨packages, ids, hread, rfl⟩
    split
    · rename_i e herror
      rw [hread] at herror
      cases herror
    · rename_i packages' hread'
      cases hread.symm.trans hread'
      rfl

theorem lt_size_of_considered {u : Universe} {id : PackageId} (h : id ∈ u.considered) :
    id < u.size := by
  have hlt := PackageSet.lt_capacity h
  rwa [u.considered_capacity] at hlt

private theorem place_strictMono (u : Universe) :
    StrictMono fun i => u.considered.toList.getD i (u.size + i) := by
  intro i j hlt
  show u.considered.toList.getD i (u.size + i) < u.considered.toList.getD j (u.size + j)
  -- the listed places ascend, and all of them lie below those beyond the list
  rcases Nat.lt_or_ge j u.considered.toList.length with hj | hj
  · have hi : i < u.considered.toList.length := Nat.lt_trans hlt hj
    rw [List.getD_eq_getElem _ _ hi, List.getD_eq_getElem _ _ hj]
    exact List.pairwise_iff_getElem.mp (PackageSet.toList_pairwise _) i j hi hj hlt
  · rw [List.getD_eq_default _ _ hj]
    rcases Nat.lt_or_ge i u.considered.toList.length with hi | hi
    · rw [List.getD_eq_getElem _ _ hi]
      have hsize := lt_size_of_considered (PackageSet.mem_toList.mp (List.getElem_mem hi))
      exact Nat.lt_of_lt_of_le hsize (Nat.le_add_right _ _)
    · rw [List.getD_eq_default _ _ hi]
      omega

/-- Where the considered packages stand, in order. Numbers beyond the last one stand for places
beyond the universe. -/
def place (u : Universe) : Renaming := OrderEmbedding.ofStrictMono _ u.place_strictMono

variable {u : Universe}

theorem place_of_lt {i : Nat} (h : i < u.considered.toList.length) :
    u.place i = u.considered.toList[i] := List.getD_eq_getElem _ _ h

theorem place_of_ge {i : Nat} (h : u.considered.toList.length ≤ i) : u.place i = u.size + i :=
  List.getD_eq_default _ _ h

theorem mem_considered_iff_place {id : PackageId} :
    id ∈ u.considered ↔ ∃ i < u.considered.toList.length, u.place i = id := by
  rw [← PackageSet.mem_toList, List.mem_iff_getElem]
  constructor
  · rintro ⟨i, hi, heq⟩
    exact ⟨i, hi, (place_of_lt hi).trans heq⟩
  · rintro ⟨i, hi, heq⟩
    exact ⟨i, hi, (place_of_lt hi).symm.trans heq⟩

theorem embeds_place {v : Universe}
    (hcontent : v.packages.toList.map Package.content =
      u.considered.toList.map fun id => (u.get id).content)
    (hconsidered : ∀ i, i ∈ v.considered ↔ i < v.size)
    (hpriority : ∀ repo, u.repoPriority repo = v.repoPriority repo)
    (hnative : u.nativeArch = v.nativeArch) : v.Embeds u u.place := by
  have hlength : u.considered.toList.length = v.size := by
    have hlengths := congrArg List.length hcontent
    rw [List.length_map, List.length_map, Array.length_toList] at hlengths
    exact hlengths.symm
  refine ⟨fun i => ?_, fun i => ?_, fun id => ?_, hpriority, hnative⟩
  · rcases Nat.lt_or_ge i u.considered.toList.length with hi | hi
    · have hsize : i < v.packages.size := Nat.lt_of_lt_of_eq hi hlength
      have hat := congrArg (fun l => l[i]?) hcontent
      simp only [List.getElem?_map, Array.getElem?_toList, Array.getElem?_eq_getElem hsize,
        List.getElem?_eq_getElem hi, Option.map_some, Option.some.injEq] at hat
      rw [place_of_lt hi, get_eq_getElem hsize]
      exact hat.symm
    · rw [place_of_ge hi, get_of_le (Nat.le_add_right _ _), get_of_le (hlength ▸ hi)]
  · rcases Nat.lt_or_ge i u.considered.toList.length with hi | hi
    · have hplace := mem_considered_iff_place.mpr ⟨i, hi, rfl⟩
      exact iff_of_true (lt_size_of_considered hplace) (hlength ▸ hi)
    · rw [place_of_ge hi]
      exact iff_of_false (Nat.not_lt.mpr (Nat.le_add_right _ _)) (Nat.not_lt.mpr (hlength ▸ hi))
  · rw [mem_considered_iff_place, hlength]
    simp only [hconsidered]

section Packages

variable {generation : Nat} {packages : List Package}
  {ids : packages.map Package.id = List.range packages.length} {priorities : List (String × Int)}
  {arch : Option String}

theorem get_ofPackages {patterns : List Glob} {p : Package} (hp : p ∈ packages) :
    p.id < packages.length ∧
      (ofPackages generation packages ids priorities patterns arch).get p.id = p :=
  eq_get_of_mem (u := ofPackages generation packages ids priorities patterns arch) hp

theorem hidden_eq : hidden packages (excludes.map Glob.compile) =
    packages.filter fun p => !p.visible excludes := by
  apply List.filter_congr
  intro p _
  rw [Package.visible, Bool.not_or, Bool.not_not]

theorem considered_ofPackages :
    (ofPackages generation packages ids priorities
      (excludes.map Glob.compile) arch).considered.toList =
      (packages.filter (Package.visible excludes)).map Package.id := by
  let u := ofPackages generation packages ids priorities (excludes.map Glob.compile) arch
  apply List.Pairwise.eq_of_mem_iff (PackageSet.toList_pairwise _)
  · rw [List.pairwise_map]
    exact (packages_pairwise (u := u)).filter _
  · intro id
    have hmem : id ∈ u.considered ↔
        id < packages.length ∧
          id ∉ (hidden packages (excludes.map Glob.compile)).map Package.id := by
      rw [← PackageSet.mem_full (g := generation)]
      exact PackageSet.mem_foldl_remove _ _ id
    rw [PackageSet.mem_toList, hmem, hidden_eq]
    constructor
    · rintro ⟨hlt, hnot⟩
      have hin : u.get id ∈ packages := get_mem (u := u) hlt
      refine List.mem_map.mpr ⟨u.get id, List.mem_filter.mpr ⟨hin, ?_⟩, get_id hlt⟩
      by_contra hhidden
      have hout : (!(u.get id).visible excludes) = true := by
        rw [Bool.eq_false_iff.mpr hhidden]
        rfl
      exact hnot (List.mem_map.mpr ⟨u.get id, List.mem_filter.mpr ⟨hin, hout⟩, get_id hlt⟩)
    · intro hid
      obtain ⟨p, hp, rfl⟩ := List.mem_map.mp hid
      obtain ⟨hin, hvisible⟩ := List.mem_filter.mp hp
      have hget : ∀ p ∈ packages, p.id < packages.length ∧ u.get p.id = p :=
        fun _ hp => get_ofPackages hp
      refine ⟨(hget p hin).1, fun hhidden => ?_⟩
      obtain ⟨q, hq, heq⟩ := List.mem_map.mp hhidden
      obtain ⟨hqin, hout⟩ := List.mem_filter.mp hq
      have hsame : q = p := by
        rw [← (hget q hqin).2, heq, (hget p hin).2]
      rw [hsame, hvisible] at hout
      exact absurd hout (by decide)

theorem mem_considered_ofPackages {i : PackageId} :
    i ∈ (ofPackages generation packages ids priorities [] arch).considered ↔
      i < packages.length := by
  have hall : packages.filter (Package.visible []) = packages := by
    rw [List.filter_eq_self]
    intro p _
    exact Bool.or_true _
  have hlist : (ofPackages generation packages ids priorities [] arch).considered.toList =
      List.range packages.length :=
    calc
      _ = (packages.filter (Package.visible [])).map Package.id := considered_ofPackages
      _ = List.range packages.length := by rw [hall, ids]
  rw [← PackageSet.mem_toList, ← List.mem_range]
  exact iff_of_eq (congrArg (i ∈ ·) hlist)

end Packages

theorem visible_of_considered {generation : Nat} {repositories : List Repository}
    {arch : Option String} (h : build generation repositories excludes arch = .ok u)
    {id : PackageId} (hid : id ∈ u.considered) : (u.get id).visible excludes = true := by
  obtain ⟨packages, ids, -, rfl⟩ := build_eq_ok.mp h
  rw [← PackageSet.mem_toList, considered_ofPackages] at hid
  obtain ⟨p, hp, rfl⟩ := List.mem_map.mp hid
  obtain ⟨hin, hvisible⟩ := List.mem_filter.mp hp
  rw [(get_ofPackages hin).2]
  exact hvisible

/-- The records that are left when the excluded ones are dropped make a universe, and it has just
the packages that are considered among all records. -/
theorem exists_build_without {generation : Nat} (generation' : Nat)
    {repositories : List Repository} {arch : Option String}
    (h : build generation repositories excludes arch = .ok u) :
    ∃ v, build generation' (repositories.map (Repository.without excludes)) [] arch = .ok v ∧
      (∀ i, i ∈ v.considered ↔ i < v.size) ∧ v.Embeds u u.place := by
  obtain ⟨packages, ids, hread, rfl⟩ := build_eq_ok.mp h
  have hsorted : sortBy repositoryLe (repositories.map (Repository.without excludes)) =
      (sortBy repositoryLe repositories).map (Repository.without excludes) :=
    sortBy_map (fun _ _ => rfl) repositories
  obtain ⟨rest, hrest, hcontent⟩ := readRepositories_without excludes hread 0
  rw [← hsorted] at hrest
  have hids : rest.map Package.id = List.range rest.length :=
    List.range_eq_range' ▸ readRepositories_ids hrest
  refine ⟨_, build_eq_ok.mpr ⟨rest, hids, hrest, rfl⟩, fun i => mem_considered_ofPackages, ?_⟩
  apply embeds_place
  · show rest.map Package.content = _
    rw [considered_ofPackages, hcontent, List.map_map]
    apply List.map_congr_left
    intro p hp
    rw [Function.comp_apply, (get_ofPackages (List.mem_filter.mp hp).1).2]
  · exact fun i => mem_considered_ofPackages
  · intro repo
    rw [hsorted, List.map_map]
    rfl
  · rfl

end Universe

end Depsolve
