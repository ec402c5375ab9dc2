import Depsolve.Universe
/-!
# Looking packages up

The indexes of a universe list exactly the packages that a scan over all of
them would find, and the installed ones are those whose record says so.
-/
namespace Depsolve

namespace NameIndex

theorem find_cons (n name : String) (ids : List PackageId) (index : NameIndex) :
    find ((n, ids) :: index) name = if name = n then ids else index.find name := by
  by_cases h : name = n
  · subst h
    simp [find]
  · have hne : (name == n) = false := beq_false_of_ne h
    simp [find, List.lookup_cons, hne, h]

theorem find_file_self (name : String) (id : PackageId) (index : NameIndex) :
    (index.file name id).find name =
      if (index.find name).head? = some id then index.find name else id :: index.find name := by
  induction index with
  | nil => simp [file, find]
  | cons entry rest ih =>
    obtain ⟨n, ids⟩ := entry
    by_cases h : n = name
    · subst h
      simp [file, find_cons]
    · simp only [file, find_cons, if_neg h, if_neg (Ne.symm h), ih]

theorem find_file_of_ne {name other : String} (h : other ≠ name) (id : PackageId)
    (index : NameIndex) : (index.file name id).find other = index.find other := by
  induction index with
  | nil => simp [file, find_cons, h]
  | cons entry rest ih =>
    obtain ⟨n, ids⟩ := entry
    by_cases hn : n = name
    · subst hn
      simp [file, find_cons, h]
    · simp only [file, if_neg hn, find_cons, ih]

theorem mem_find_file {name other : String} {id x : PackageId} {index : NameIndex} :
    x ∈ (index.file name id).find other ↔ x ∈ index.find other ∨ x = id ∧ other = name := by
  by_cases h : other = name
  · subst h
    rw [find_file_self]
    split
    · rename_i hhead
      have hmem := List.mem_of_head? hhead
      constructor
      · exact .inl
      · rintro (hx | ⟨rfl, -⟩)
        · exact hx
        · exact hmem
    · simp [or_comm]
  · simp [find_file_of_ne h, h]

private theorem mem_find_fileAll (names : List String) (id x : PackageId) (index : NameIndex)
    (other : String) :
    x ∈ (names.foldr (fun n index => index.file n id) index).find other ↔
      x ∈ index.find other ∨ x = id ∧ other ∈ names := by
  induction names with
  | nil => simp
  | cons n names ih =>
    rw [List.foldr_cons, mem_find_file, ih, List.mem_cons, or_assoc, ← and_or_left,
      or_comm (b := other = n)]

theorem mem_find_ofPackages {names : Package → List String} {packages : List Package}
    {name : String} {id : PackageId} :
    id ∈ (ofPackages names packages).find name ↔ ∃ p ∈ packages, p.id = id ∧ name ∈ names p := by
  induction packages with
  | nil => simp [ofPackages, find]
  | cons p packages ih =>
    have hcons : ofPackages names (p :: packages) =
        (names p).foldr (fun n index => index.file n p.id) (ofPackages names packages) := rfl
    rw [hcons, mem_find_fileAll, ih]
    simp only [List.mem_cons, exists_eq_or_imp]
    rw [or_comm, eq_comm (a := id)]

private theorem find_file_pairwise {name other : String} {id : PackageId} {index : NameIndex}
    (hlow : ∀ x ∈ index.find other, id ≤ x) (h : (index.find other).Pairwise (· < ·)) :
    ((index.file name id).find other).Pairwise (· < ·) := by
  by_cases hname : other = name
  · subst hname
    rw [find_file_self]
    split
    · exact h
    · rename_i hhead
      refine List.pairwise_cons.mpr ⟨fun x hx => ?_, h⟩
      refine Nat.lt_of_le_of_ne (hlow x hx) fun heq => hhead ?_
      cases hlist : index.find other with
      | nil => simp [hlist] at hx
      | cons y rest =>
        -- the front is not below `id`, and nothing behind it is `id`
        rw [hlist] at hx h
        have hy : id ≤ y := hlow y (hlist ▸ List.mem_cons_self)
        rcases List.mem_cons.mp hx with rfl | hrest
        · rw [List.head?_cons, heq]
        · have hlt : id < x := Nat.lt_of_le_of_lt hy ((List.pairwise_cons.mp h).1 x hrest)
          exact absurd heq (Nat.ne_of_lt hlt)
  · rw [find_file_of_ne hname]
    exact h

private theorem find_fileAll_pairwise (names : List String) {id : PackageId} {index : NameIndex}
    {other : String} (hlow : ∀ x ∈ index.find other, id ≤ x)
    (h : (index.find other).Pairwise (· < ·)) :
    ((names.foldr (fun n index => index.file n id) index).find other).Pairwise (· < ·) := by
  induction names with
  | nil => exact h
  | cons n names ih =>
    apply find_file_pairwise _ ih
    intro x hx
    rcases (mem_find_fileAll names id x index other).mp hx with hold | ⟨rfl, -⟩
    · exact hlow x hold
    · exact Nat.le_refl x

theorem find_ofPackages_pairwise {names : Package → List String} {packages : List Package}
    (h : packages.Pairwise fun p q => p.id < q.id) (name : String) :
    ((ofPackages names packages).find name).Pairwise (· < ·) := by
  induction packages with
  | nil => exact .nil
  | cons p packages ih =>
    have hfirst := List.pairwise_cons.mp h
    refine find_fileAll_pairwise (names p) (fun x hx => ?_) (ih hfirst.2)
    obtain ⟨q, hq, rfl, -⟩ := mem_find_ofPackages.mp hx
    exact Nat.le_of_lt (hfirst.1 q hq)

end NameIndex

namespace Universe

variable {u : Universe}

theorem get_eq_getElem {id : PackageId} (h : id < u.packages.size) : u.get id = u.packages[id] := by
  rw [get, Array.getD_eq_getD_getElem?, Array.getElem?_eq_getElem h, Option.getD_some]

theorem get_mem {id : PackageId} (h : id < u.size) : u.get id ∈ u.packages.toList := by
  have hlt : id < u.packages.size := h
  rw [get_eq_getElem hlt]
  exact Array.getElem_mem_toList hlt

theorem get_id {id : PackageId} (h : id < u.size) : (u.get id).id = id := by
  have hlt : id < u.packages.size := h
  have hids : (u.packages.toList.map Package.id)[id]? = (List.range u.packages.size)[id]? :=
    congrArg (fun l => l[id]?) u.ids
  rw [List.getElem?_range hlt, List.getElem?_map, Array.getElem?_toList,
    Array.getElem?_eq_getElem hlt] at hids
  rw [get_eq_getElem hlt]
  exact Option.some.inj hids

theorem get_of_le {id : PackageId} (h : u.size ≤ id) : u.get id = default := by
  have hle : u.packages.size ≤ id := h
  rw [get, Array.getD_eq_getD_getElem?, Array.getElem?_eq_none hle, Option.getD_none]

theorem eq_get_of_mem {p : Package} (h : p ∈ u.packages.toList) :
    p.id < u.size ∧ u.get p.id = p := by
  obtain ⟨i, hi, hp⟩ := List.getElem_of_mem h
  have hlt : i < u.packages.size := by simpa using hi
  have hget : u.get i = p := by
    rw [get_eq_getElem hlt, ← hp, Array.getElem_toList]
  have hid : p.id = i := hget ▸ get_id hlt
  rw [hid]
  exact ⟨hlt, hget⟩

theorem exists_mem_packages {P : Package → Prop} {id : PackageId} :
    (∃ p ∈ u.packages.toList, p.id = id ∧ P p) ↔ id < u.size ∧ P (u.get id) := by
  constructor
  · rintro ⟨p, hp, rfl, h⟩
    have hget := eq_get_of_mem hp
    exact ⟨hget.1, hget.2.symm ▸ h⟩
  · rintro ⟨hlt, h⟩
    exact ⟨u.get id, get_mem hlt, get_id hlt, h⟩

theorem mem_byName {name : String} {id : PackageId} :
    id ∈ u.byName name ↔ id < u.size ∧ (u.get id).name = name := by
  rw [byName, u.nameIndex_eq, NameIndex.mem_find_ofPackages, exists_mem_packages]
  simp [eq_comm]

theorem mem_whatProvides {d : Dependency} {id : PackageId} :
    id ∈ u.whatProvides d ↔ id < u.size ∧ (u.get id).providesDep d = true := by
  rw [whatProvides, List.mem_filter, u.provideIndex_eq, NameIndex.mem_find_ofPackages,
    exists_mem_packages]
  constructor
  · rintro ⟨⟨hlt, -⟩, hprov⟩
    exact ⟨hlt, hprov⟩
  · rintro ⟨hlt, hprov⟩
    obtain ⟨x, hx, hover⟩ := List.any_eq_true.mp hprov
    have hname : d.name = x.name := by
      simp only [Dependency.overlaps, Bool.and_eq_true, beq_iff_eq] at hover
      exact hover.1
    exact ⟨⟨hlt, hname ▸ List.mem_map_of_mem hx⟩, hprov⟩

theorem packages_pairwise : u.packages.toList.Pairwise fun p q => p.id < q.id := by
  rw [← List.pairwise_map (f := Package.id) (R := (· < ·)), u.ids]
  exact List.pairwise_lt_range

theorem byName_pairwise (name : String) : (u.byName name).Pairwise (· < ·) := by
  rw [byName, u.nameIndex_eq]
  exact NameIndex.find_ofPackages_pairwise packages_pairwise name

theorem whatProvides_pairwise (d : Dependency) : (u.whatProvides d).Pairwise (· < ·) := by
  rw [whatProvides, u.provideIndex_eq]
  exact (NameIndex.find_ofPackages_pairwise packages_pairwise d.name).filter _

/-- Beyond the universe nothing is provided. -/
theorem mem_whatProvides_iff {d : Dependency} {id : PackageId} :
    id ∈ u.whatProvides d ↔ (u.get id).providesDep d = true := by
  rw [mem_whatProvides, and_iff_right_iff_imp]
  intro h
  rcases Nat.lt_or_ge id u.size with hlt | hge
  · exact hlt
  · rw [get_of_le hge] at h
    exact absurd h Bool.false_ne_true

theorem mem_installed {id : PackageId} :
    id ∈ u.installed ↔ id < u.size ∧ (u.get id).installed = true := by
  rw [u.installed_eq, PackageSet.mem_ofIds, List.mem_map,
    ← exists_mem_packages (P := fun p => p.installed = true)]
  constructor
  · rintro ⟨⟨p, hp, rfl⟩, -⟩
    exact ⟨p, (List.mem_filter.mp hp).1, rfl, (List.mem_filter.mp hp).2⟩
  · rintro ⟨p, hp, rfl, hin⟩
    exact ⟨⟨p, List.mem_filter.mpr ⟨hp, hin⟩, rfl⟩, (eq_get_of_mem hp).1⟩

theorem mem_installed_iff_flag {id : PackageId} :
    id ∈ u.installed ↔ (u.get id).installed = true := by
  rw [mem_installed, and_iff_right_iff_imp]
  intro h
  rcases Nat.lt_or_ge id u.size with hlt | hge
  · exact hlt
  · rw [get_of_le hge] at h
    exact absurd h (by decide)

theorem notMem_installed {id : PackageId} (h : (u.get id).installed = false) :
    id ∉ u.installed := by
  intro hin
  exact absurd (h.symm.trans (mem_installed_iff_flag.mp hin)) (by decide)

end Universe

end Depsolve
