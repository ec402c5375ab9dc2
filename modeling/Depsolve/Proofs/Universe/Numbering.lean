import Depsolve.Proofs.Sort
import Depsolve.Proofs.Universe.Generation
import Depsolve.Proofs.Universe.Reading
import Depsolve.Proofs.Universe.Sample
/-!
# Numbering records

A universe is built of all records or not at all. The records are numbered through, the
repositories in stable order, so that the installed packages come first and repositories of
different ranks may be added in any order.
-/
namespace Depsolve

/-- Whether a repository has a rank: that of installed packages or not, and a priority. -/
def Repository.ranks (system : Bool) (priority : Int) (repo : Repository) : Bool :=
  repo.system == system && repo.priority == priority

/-- Installed packages first, then by priority, and those of one rank as they were added. -/
structure Repository.StablySorted (repositories order : List Repository) : Prop where
  perm : order.Perm repositories
  sorted : order.Pairwise fun a b =>
    a.system = true ∧ b.system = false ∨ a.system = b.system ∧ a.priority ≤ b.priority
  stable : ∀ system priority, order.filter (Repository.ranks system priority) =
    repositories.filter (Repository.ranks system priority)

namespace Universe

/-! ### The order of repositories -/

theorem repositoryLe_iff {a b : Repository} : repositoryLe a b = true ↔
    a.system = true ∧ b.system = false ∨ a.system = b.system ∧ a.priority ≤ b.priority := by
  rw [repositoryLe]
  cases a.system <;> cases b.system <;> simp

theorem repositoryLe_trans (a b c : Repository) (hab : repositoryLe a b = true)
    (hbc : repositoryLe b c = true) : repositoryLe a c = true := by
  rw [repositoryLe_iff] at *
  rcases hab with ⟨ha, hb⟩ | ⟨hab, hle⟩
  · rcases hbc with ⟨hb', -⟩ | ⟨hbc, -⟩
    · rw [hb] at hb'
      cases hb'
    · exact .inl ⟨ha, hbc ▸ hb⟩
  · rcases hbc with ⟨hb, hc⟩ | ⟨hbc, hle'⟩
    · exact .inl ⟨hab.trans hb, hc⟩
    · exact .inr ⟨hab.trans hbc, hle.trans hle'⟩

theorem repositoryLe_total (a b : Repository) :
    repositoryLe a b = true ∨ repositoryLe b a = true := by
  rw [repositoryLe_iff, repositoryLe_iff]
  cases a.system <;> cases b.system <;> simp <;> omega

theorem tied_repositoryLe (a : Repository) :
    tied repositoryLe a = Repository.ranks a.system a.priority := by
  funext b
  rw [Bool.eq_iff_iff, tied, Bool.and_eq_true, repositoryLe_iff, repositoryLe_iff,
    Repository.ranks, Bool.and_eq_true, beq_iff_eq, beq_iff_eq]
  cases a.system <;> cases b.system <;> simp <;> omega

theorem filter_ranks_sortBy (system : Bool) (priority : Int) (repositories : List Repository) :
    (sortBy repositoryLe repositories).filter (Repository.ranks system priority) =
      repositories.filter (Repository.ranks system priority) := by
  have h := filter_tied_sortBy repositoryLe_trans ⟨"", priority, system, []⟩ repositories
  rwa [tied_repositoryLe] at h

theorem stablySorted_sortBy (repositories : List Repository) :
    Repository.StablySorted repositories (sortBy repositoryLe repositories) where
  perm := sortBy_perm repositoryLe repositories
  sorted := (sortBy_pairwise repositoryLe_trans repositoryLe_total repositories).imp
    repositoryLe_iff.mp
  stable := fun system priority => filter_ranks_sortBy system priority repositories

theorem sortBy_eq_of_filter_ranks {repositories repositories' : List Repository}
    (h : ∀ system priority, repositories'.filter (Repository.ranks system priority) =
      repositories.filter (Repository.ranks system priority)) :
    sortBy repositoryLe repositories' = sortBy repositoryLe repositories := by
  apply sortBy_eq_of_filter_tied repositoryLe_total repositoryLe_trans
  intro a
  rw [tied_repositoryLe, h]

/-! ### Installed packages come first -/

theorem ofRepositories_pairwise {repositories : List Repository}
    (h : repositories.Pairwise fun a b => repositoryLe a b = true) :
    (Entry.ofRepositories repositories).Pairwise fun a b =>
      b.repo.system = true → a.repo.system = true := by
  have hrepo : ∀ {repo : Repository} {e : Entry}, e ∈ repo.entries → e.repo = repo := by
    intro repo e he
    obtain ⟨r, -, rfl⟩ := List.mem_map.mp he
    rfl
  rw [Entry.ofRepositories, List.pairwise_flatMap]
  constructor
  · intro repo _
    apply List.pairwise_of_forall_mem_list
    intro a ha b hb
    rw [hrepo ha, hrepo hb]
    exact id
  · refine h.imp fun {c d} hle a ha b hb hb' => ?_
    rw [hrepo ha]
    rw [hrepo hb] at hb'
    rcases repositoryLe_iff.mp hle with ⟨hc, -⟩ | ⟨hcd, -⟩
    · exact hc
    · rw [hcd, hb']

/-- Where a property only ever ends, it holds of an initial segment. -/
theorem exists_initial_segment {α : Type} {p : α → Bool} {l : List α}
    (h : l.Pairwise fun a b => p b = true → p a = true) :
    ∃ n ≤ l.length, ∀ i, (l[i]?).any p = true ↔ i < n := by
  induction l with
  | nil => exact ⟨0, Nat.le_refl 0, by simp⟩
  | cons a l ih =>
    obtain ⟨hfirst, hrest⟩ := List.pairwise_cons.mp h
    by_cases ha : p a = true
    · obtain ⟨n, hn, hat⟩ := ih hrest
      refine ⟨n + 1, Nat.succ_le_succ hn, fun i => ?_⟩
      cases i with
      | zero => simp [ha]
      | succ i => simp [hat]
    · refine ⟨0, Nat.zero_le _, fun i => ?_⟩
      cases i with
      | zero => simp [ha]
      | succ i =>
        have hnone : ∀ b ∈ l, ¬ p b = true := fun b hb hpb => ha (hfirst b hb hpb)
        simp only [List.getElem?_cons_succ, Option.any_eq_true, Nat.not_lt_zero, iff_false]
        rintro ⟨b, hb, hpb⟩
        exact hnone b (List.mem_of_getElem? hb) hpb

/-! ### What is built -/

section Build

variable {generation : Nat} {repositories : List Repository} {excludes : List String}
  {arch : Option String} {u : Universe}

theorem exists_build_iff : (∃ u, build generation repositories excludes arch = .ok u) ↔
    ∀ repo ∈ repositories, ∀ r ∈ repo.records, r.WellFormed := by
  have hread : (∃ u, build generation repositories excludes arch = .ok u) ↔
      ∃ packages, readRepositories 0 (sortBy repositoryLe repositories) = .ok packages := by
    constructor
    · rintro ⟨u, h⟩
      obtain ⟨packages, -, hread, -⟩ := build_eq_ok.mp h
      exact ⟨packages, hread⟩
    · rintro ⟨packages, hread⟩
      exact ⟨_, build_eq_ok.mpr
        ⟨packages, List.range_eq_range' ▸ readRepositories_ids hread, hread, rfl⟩⟩
  rw [hread, readRepositories_stopsAt.exists_ok_iff, List.flatMap_eq_nil_iff]
  simp only [Entry.faults_eq_nil]
  rw [Entry.forall_ofRepositories]
  simp only [(sortBy_perm repositoryLe repositories).mem_iff]

/-- The first record in order with a fault fails the build. -/
theorem build_eq_error_iff_first {e : LoadError} :
    build generation repositories excludes arch = .error e ↔
      ∃ front entry back, Entry.ofRepositories (sortBy repositoryLe repositories) =
          front ++ entry :: back ∧
        (∀ x ∈ front, x.record.WellFormed) ∧ entry.faults.head? = some e := by
  rw [build_eq_error, readRepositories_stopsAt.error_iff, List.head?_flatMap,
    List.findSome?_eq_some_iff]
  simp only [List.head?_eq_none_iff, Entry.faults_eq_nil, and_comm]

theorem readAs_of_build (h : build generation repositories excludes arch = .ok u) :
    List.Forall₂ ReadAs (Entry.ofRepositories (sortBy repositoryLe repositories))
      u.packages.toList := by
  obtain ⟨packages, ids, hread, rfl⟩ := build_eq_ok.mp h
  exact readRepositories_readAs hread

theorem read_of_build (h : build generation repositories excludes arch = .ok u) {i : Nat}
    (hi : i < u.size) :
    ∃ e, (Entry.ofRepositories (sortBy repositoryLe repositories))[i]? = some e ∧
      (u.get i).ReadAt i e.repo e.index e.record := by
  have hall := readAs_of_build h
  have hlt : i < (Entry.ofRepositories (sortBy repositoryLe repositories)).length := by
    rw [hall.length_eq]
    exact hi
  refine ⟨_, List.getElem?_eq_getElem hlt, ?_⟩
  have hread := (List.forall₂_iff_get.mp hall).2 i hlt hi
  have hget : u.packages.toList.get ⟨i, hi⟩ = u.get i := (get_eq_getElem hi).symm
  rw [hget] at hread
  have hid : (u.get i).id = i := get_id hi
  rw [ReadAs, hid] at hread
  exact Entry.read_eq_ok.mp hread

theorem exists_installed_segment (h : build generation repositories excludes arch = .ok u) :
    ∃ n ≤ u.size, ∀ id, id ∈ u.installed ↔ id < n := by
  have hall := readAs_of_build h
  have hsystem : u.packages.toList.map Package.installed =
      (Entry.ofRepositories (sortBy repositoryLe repositories)).map fun e => e.repo.system := by
    rw [← List.forall₂_eq_eq_eq, List.forall₂_map_left_iff, List.forall₂_map_right_iff]
    exact hall.flip.imp fun _ _ hread => (Entry.read_eq_ok.mp hread).installed
  have hpairwise : u.packages.toList.Pairwise fun p q => q.installed = true → p.installed = true := by
    rw [← List.pairwise_map (f := Package.installed) (R := fun a b => b = true → a = true), hsystem,
      List.pairwise_map]
    exact ofRepositories_pairwise (sortBy_pairwise repositoryLe_trans repositoryLe_total _)
  obtain ⟨n, hn, hat⟩ := exists_initial_segment hpairwise
  refine ⟨n, hn, fun id => ?_⟩
  rw [← hat, mem_installed, Array.getElem?_toList]
  rcases Nat.lt_or_ge id u.packages.size with hlt | hge
  · rw [Array.getElem?_eq_getElem hlt, get_eq_getElem hlt, Option.any_some]
    exact and_iff_right hlt
  · simp [size, Nat.not_lt.mpr hge]

end Build

/-- A universe is built exactly of well-formed records, in the stable order of their repositories,
and else the first malformed record fails it. Repositories that are added in another order, with
those of one rank in the same order, make the same universe. -/
theorem build_reproducible (generation : Nat) (repositories : List Repository)
    (excludes : List String) (arch : Option String) :
    let order := sortBy repositoryLe repositories
    Repository.StablySorted repositories order ∧
    ((∃ u, build generation repositories excludes arch = .ok u) ↔
      ∀ repo ∈ repositories, ∀ r ∈ repo.records, r.WellFormed) ∧
    (∀ e, build generation repositories excludes arch = .error e ↔
      ∃ front entry back, Entry.ofRepositories order = front ++ entry :: back ∧
        (∀ x ∈ front, x.record.WellFormed) ∧ entry.faults.head? = some e) ∧
    (∀ u, build generation repositories excludes arch = .ok u →
      (Entry.ofRepositories order).length = u.size ∧
      (∀ i < u.size, (u.get i).id = i ∧
        ∃ entry, (Entry.ofRepositories order)[i]? = some entry ∧
          (u.get i).ReadAt i entry.repo entry.index entry.record) ∧
      ∃ n ≤ u.size, ∀ id, id ∈ u.installed ↔ id < n) ∧
    ∀ generation' repositories',
      (∀ system priority, repositories'.filter (Repository.ranks system priority) =
        repositories.filter (Repository.ranks system priority)) →
      (∀ e, build generation' repositories' excludes arch = .error e ↔
        build generation repositories excludes arch = .error e) ∧
      ∀ u, build generation repositories excludes arch = .ok u →
        ∃ v, build generation' repositories' excludes arch = .ok v ∧
          v.packages = u.packages ∧ v.nameIndex = u.nameIndex ∧
          v.provideIndex = u.provideIndex ∧ v.installed.members = u.installed.members ∧
          v.considered.members = u.considered.members ∧ v.repositories = u.repositories := by
  intro order
  refine ⟨stablySorted_sortBy repositories, exists_build_iff, fun e => build_eq_error_iff_first,
    ?_, ?_⟩
  · intro u h
    refine ⟨(readAs_of_build h).length_eq, ?_, exists_installed_segment h⟩
    intro i hi
    exact ⟨get_id hi, read_of_build h hi⟩
  · intro generation' repositories' hranks
    have hsorted := sortBy_eq_of_filter_ranks hranks
    refine ⟨build_error_iff generation' hsorted, fun u h => ?_⟩
    obtain ⟨v, hv, halike⟩ := exists_build_alike generation' hsorted h
    exact ⟨v, hv, halike.packages, halike.nameIndex, halike.provideIndex, halike.installed,
      halike.considered, halike.repositories⟩

/-- Two repositories of one rank, with another one and the system added in between. -/
def addedLate : List Repository :=
  [⟨"updates", 50, false, [.noarch "shell" "3"]⟩, ⟨"base", 99, false, [.noarch "shell" "2"]⟩,
    ⟨systemRepository, defaultPriority, true, [.noarch "shell" "1" [("reason", "user")]]⟩,
    ⟨"extras", 50, false, [.noarch "pager" "1" [("requires", "shell")]]⟩]

/-- The same repositories, with the system first and the preferred ones last. -/
def addedFirst : List Repository :=
  [⟨systemRepository, defaultPriority, true, [.noarch "shell" "1" [("reason", "user")]]⟩,
    ⟨"base", 99, false, [.noarch "shell" "2"]⟩, ⟨"updates", 50, false, [.noarch "shell" "3"]⟩,
    ⟨"extras", 50, false, [.noarch "pager" "1" [("requires", "shell")]]⟩]

theorem addedFirst_reproducible :
    (∀ system priority, addedFirst.filter (Repository.ranks system priority) =
      addedLate.filter (Repository.ranks system priority)) ∧
    ∃ u v, build 1 addedLate = .ok u ∧ build 2 addedFirst = .ok v ∧ v.packages = u.packages ∧
      u.packages.toList.map (fun p => (p.name, p.evr.version)) =
        [("shell", "1"), ("shell", "3"), ("pager", "1"), ("shell", "2")] := by
  have hranks : ∀ system priority, addedFirst.filter (Repository.ranks system priority) =
      addedLate.filter (Repository.ranks system priority) := by
    intro system priority
    by_cases hlow : priority = 50
    · cases system <;> simp [addedFirst, addedLate, Repository.ranks, hlow, defaultPriority]
    · cases system <;>
        simp [addedFirst, addedLate, Repository.ranks, Ne.symm hlow, List.filter_cons]
  refine ⟨hranks, ?_⟩
  have hbuild : build 1 addedLate = .ok ((build 1 addedLate).toOption.get (by decide +kernel)) :=
    eq_ok_of_toOption (Option.some_get _).symm
  obtain ⟨-, -, -, -, hreorder⟩ := build_reproducible 1 addedLate [] none
  obtain ⟨v, hv, hpackages, -⟩ := (hreorder 2 addedFirst hranks).2 _ hbuild
  exact ⟨_, v, hbuild, hv, hpackages, by decide +kernel⟩

end Universe

end Depsolve
