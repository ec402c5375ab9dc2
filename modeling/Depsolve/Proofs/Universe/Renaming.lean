import Depsolve.Decisions
import Depsolve.IdSet
import Depsolve.Sort
import Mathlib.Data.List.Sort
import Mathlib.Order.Hom.Basic
/-!
# Renaming packages

Packages are renamed by a map that keeps their order. As sets of identifiers are
listed in order, every set operation and every stable sort goes along with it.
-/
namespace Depsolve

/-- New identifiers in the order of the old ones. -/
abbrev Renaming := PackageId ↪o PackageId

theorem compare_rename (f : Renaming) (a b : PackageId) : compare (f a) (f b) = compare a b := by
  simp only [Nat.compare_eq_ite_lt, f.lt_iff_lt]

theorem beq_rename (f : Renaming) (a b : PackageId) : (f a == f b) = (a == b) := by
  rw [Bool.eq_iff_iff, beq_iff_eq, beq_iff_eq, f.eq_iff_eq]

section Lists

variable {α β : Type} {g : α → β}

theorem insertBy_map {le : α → α → Bool} {le' : β → β → Bool}
    (h : ∀ a b, le' (g a) (g b) = le a b) (a : α) (l : List α) :
    insertBy le' (g a) (l.map g) = (insertBy le a l).map g := by
  induction l with
  | nil => rfl
  | cons b l ih =>
    simp only [List.map_cons, insertBy, h, ih]
    split <;> rfl

theorem sortBy_map {le : α → α → Bool} {le' : β → β → Bool}
    (h : ∀ a b, le' (g a) (g b) = le a b) (l : List α) :
    sortBy le' (l.map g) = (sortBy le l).map g := by
  induction l with
  | nil => rfl
  | cons a l ih => rw [List.map_cons, sortBy, ih, insertBy_map h, sortBy]

theorem sortCmp_map {cmp : α → α → Ordering} {cmp' : β → β → Ordering}
    (h : ∀ a b, cmp' (g a) (g b) = cmp a b) (l : List α) :
    sortCmp cmp' (l.map g) = (sortCmp cmp l).map g :=
  sortBy_map (fun a b => congrArg Ordering.isLE (h a b)) l

private theorem eraseReps_loop_map [BEq α] [LawfulBEq α] [BEq β] [LawfulBEq β]
    (hg : Function.Injective g) (a : α) (l done : List α) :
    List.eraseRepsBy.loop (· == ·) (g a) (l.map g) (done.map g) =
      (List.eraseRepsBy.loop (· == ·) a l done).map g := by
  induction l generalizing a done with
  | nil => simp [List.eraseRepsBy.loop]
  | cons b l ih =>
    have hsame : (g a == g b) = (a == b) := by
      rw [Bool.eq_iff_iff, beq_iff_eq, beq_iff_eq]
      exact hg.eq_iff
    rw [List.map_cons, List.eraseRepsBy.loop, List.eraseRepsBy.loop, hsame]
    split
    · exact ih a done
    · exact ih b (a :: done)

theorem eraseReps_map [BEq α] [LawfulBEq α] [BEq β] [LawfulBEq β] (hg : Function.Injective g)
    (l : List α) : (l.map g).eraseReps = l.eraseReps.map g := by
  cases l with
  | nil => rfl
  | cons a l => exact eraseReps_loop_map hg a l []

/-- Of two ascending lists the one has the renamed members of the other, and maybe more. What
is filtered out of it has new names of members only, so it is what is filtered out of the other. -/
theorem filter_eq_map_filter {f : Renaming} {l k : List PackageId} {p q : PackageId → Bool}
    (hl : l.Pairwise (· < ·)) (hk : k.Pairwise (· < ·)) (hmem : ∀ i, f i ∈ l ↔ i ∈ k)
    (hp : ∀ i, p (f i) = q i) (hrange : ∀ id, p id = true → ∃ i, f i = id) :
    l.filter p = (k.filter q).map f := by
  apply List.Pairwise.eq_of_mem_iff (hl.filter p)
  · rw [List.pairwise_map]
    exact (hk.filter q).imp fun h => f.strictMono h
  · intro id
    rw [List.mem_map, List.mem_filter]
    constructor
    · rintro ⟨hid, hpass⟩
      obtain ⟨i, rfl⟩ := hrange id hpass
      exact ⟨i, List.mem_filter.mpr ⟨(hmem i).mp hid, (hp i).symm.trans hpass⟩, rfl⟩
    · rintro ⟨i, hi, rfl⟩
      obtain ⟨hin, hpass⟩ := List.mem_filter.mp hi
      exact ⟨(hmem i).mpr hin, (hp i).trans hpass⟩

theorem any_eq_any {f : Renaming} {l k : List PackageId} {p q : PackageId → Bool}
    (hmem : ∀ i, f i ∈ l ↔ i ∈ k) (hp : ∀ i, p (f i) = q i)
    (hrange : ∀ id, p id = true → ∃ i, f i = id) : l.any p = k.any q := by
  rw [Bool.eq_iff_iff, List.any_eq_true, List.any_eq_true]
  constructor
  · rintro ⟨id, hid, hpass⟩
    obtain ⟨i, rfl⟩ := hrange id hpass
    exact ⟨i, (hmem i).mp hid, (hp i).symm.trans hpass⟩
  · rintro ⟨i, hi, hpass⟩
    exact ⟨f i, (hmem i).mpr hi, (hp i).trans hpass⟩

end Lists

namespace IdSet

variable {f : Renaming} {s t a b : IdSet} {i id : PackageId}

def rename (f : Renaming) (s : IdSet) : IdSet := ofList (s.toList.map f)

theorem mem_rename : id ∈ s.rename f ↔ ∃ i ∈ s, f i = id := by
  simp [rename]

@[simp] theorem apply_mem_rename : f i ∈ s.rename f ↔ i ∈ s := by
  rw [mem_rename]
  constructor
  · rintro ⟨j, hj, heq⟩
    exact f.injective heq ▸ hj
  · intro h
    exact ⟨i, h, rfl⟩

@[simp] theorem contains_rename : (s.rename f).contains (f i) = s.contains i :=
  Bool.eq_iff_iff.mpr apply_mem_rename

theorem toList_rename (f : Renaming) (s : IdSet) : (s.rename f).toList = s.toList.map f := by
  apply List.Pairwise.eq_of_mem_iff (toList_pairwise _)
  · rw [List.pairwise_map]
    exact (toList_pairwise s).imp fun h => f.strictMono h
  · intro id
    rw [mem_toList, mem_rename, List.mem_map]
    simp only [mem_toList]

theorem rename_congr (h : ∀ id, id ∈ t ↔ ∃ i ∈ s, f i = id) : t = s.rename f := by
  ext id
  rw [h, mem_rename]

theorem inter_rename (h : ∀ i, f i ∈ a ↔ i ∈ b) :
    a.inter (s.rename f) = (b.inter s).rename f := by
  apply rename_congr
  intro id
  rw [mem_inter, mem_rename]
  constructor
  · rintro ⟨ha, i, hi, rfl⟩
    exact ⟨i, mem_inter.mpr ⟨(h i).mp ha, hi⟩, rfl⟩
  · rintro ⟨i, hi, rfl⟩
    have hboth := mem_inter.mp hi
    exact ⟨(h i).mpr hboth.1, i, hboth.2, rfl⟩

theorem rename_inter : (s.rename f).inter (t.rename f) = (s.inter t).rename f :=
  inter_rename fun _ => apply_mem_rename

theorem rename_union : (s.rename f).union (t.rename f) = (s.union t).rename f := by
  apply rename_congr
  intro id
  rw [mem_union, mem_rename, mem_rename]
  simp only [mem_union, or_and_right, exists_or]

theorem rename_diff : (s.rename f).diff (t.rename f) = (s.diff t).rename f := by
  apply rename_congr
  intro id
  rw [mem_diff, mem_rename]
  constructor
  · rintro ⟨⟨i, hi, rfl⟩, hnot⟩
    exact ⟨i, mem_diff.mpr ⟨hi, fun hin => hnot (apply_mem_rename.mpr hin)⟩, rfl⟩
  · rintro ⟨i, hi, rfl⟩
    have hboth := mem_diff.mp hi
    exact ⟨⟨i, hboth.1, rfl⟩, fun hin => hboth.2 (apply_mem_rename.mp hin)⟩

theorem rename_insert : (s.rename f).insert (f i) = (s.insert i).rename f := by
  apply rename_congr
  intro id
  rw [mem_insert, mem_rename]
  simp only [mem_insert, or_and_right, exists_or, exists_eq_left, eq_comm (a := id)]

theorem rename_erase : (s.rename f).erase (f i) = (s.erase i).rename f := by
  apply rename_congr
  intro id
  rw [mem_erase, mem_rename]
  constructor
  · rintro ⟨⟨j, hj, rfl⟩, hne⟩
    exact ⟨j, mem_erase.mpr ⟨hj, fun heq => hne (congrArg f heq)⟩, rfl⟩
  · rintro ⟨j, hj, rfl⟩
    have hboth := mem_erase.mp hj
    exact ⟨⟨j, hboth.1, rfl⟩, fun heq => hboth.2 (f.injective heq)⟩

theorem rename_ofList (ids : List PackageId) : ofList (ids.map f) = (ofList ids).rename f := by
  apply rename_congr
  intro id
  rw [mem_ofList, List.mem_map]
  simp only [mem_ofList]

theorem rename_filter {p q : PackageId → Bool} (h : ∀ i, p (f i) = q i) :
    (s.rename f).filter p = (s.filter q).rename f := by
  apply rename_congr
  intro id
  rw [mem_filter, mem_rename]
  constructor
  · rintro ⟨⟨i, hi, rfl⟩, hp⟩
    exact ⟨i, mem_filter.mpr ⟨hi, h i ▸ hp⟩, rfl⟩
  · rintro ⟨i, hi, rfl⟩
    have hboth := mem_filter.mp hi
    exact ⟨⟨i, hboth.1, rfl⟩, (h i).trans hboth.2⟩

@[simp] theorem rename_empty : (∅ : IdSet).rename f = ∅ := by
  ext id
  simp [mem_rename]

theorem mem_foldl_union {α : Type} (g : α → IdSet) (l : List α) (s : IdSet) :
    id ∈ l.foldl (fun all a => all.union (g a)) s ↔ id ∈ s ∨ ∃ a ∈ l, id ∈ g a := by
  induction l generalizing s with
  | nil => simp
  | cons a l ih =>
    rw [List.foldl_cons, ih, mem_union]
    simp only [List.mem_cons, exists_eq_or_imp, or_assoc]

theorem foldl_union_rename {g g' : PackageId → IdSet} (h : ∀ i, g' (f i) = (g i).rename f)
    (l : List PackageId) (s : IdSet) :
    (l.map f).foldl (fun all id => all.union (g' id)) (s.rename f) =
      (l.foldl (fun all id => all.union (g id)) s).rename f := by
  rw [List.foldl_map]
  apply List.foldl_hom
  intro all id
  rw [h, rename_union]

@[simp] theorem isEmpty_rename : (s.rename f).isEmpty = s.isEmpty := by
  rw [Bool.eq_iff_iff, isEmpty_iff, isEmpty_iff]
  constructor
  · intro h i hi
    exact h (f i) (apply_mem_rename.mpr hi)
  · intro h id hid
    obtain ⟨i, hi, -⟩ := mem_rename.mp hid
    exact h i hi

@[simp] theorem size_rename : (s.rename f).size = s.size := by
  rw [size, size, toList_rename, List.length_map]

end IdSet

namespace Reasons

variable {f : Renaming}

def rename (f : Renaming) (rs : Reasons) : Reasons where
  entries := rs.entries.map fun e => (f e.1, e.2)
  ascending := List.pairwise_map.mpr (rs.ascending.imp fun h => f.strictMono h)

theorem put_map (id : PackageId) (reason : Reason) (entries : List (PackageId × Reason)) :
    put (f id) reason (entries.map fun e => (f e.1, e.2)) =
      (put id reason entries).map fun e => (f e.1, e.2) := by
  induction entries with
  | nil => rfl
  | cons e entries ih =>
    simp only [List.map_cons, put, f.lt_iff_lt, f.eq_iff_eq, ih]
    split
    · rfl
    · split <;> rfl

@[simp] theorem rename_insert (id : PackageId) (reason : Reason) (rs : Reasons) :
    (rs.rename f).insert (f id) reason = (rs.insert id reason).rename f := by
  simp only [insert, rename, put_map]

@[simp] theorem rename_empty : (∅ : Reasons).rename f = ∅ := rfl

@[simp] theorem get?_rename (rs : Reasons) (id : PackageId) :
    (rs.rename f).get? (f id) = rs.get? id := by
  simp only [get?, rename]
  induction rs.entries with
  | nil => rfl
  | cons e entries ih =>
    rw [List.map_cons, List.lookup_cons, List.lookup_cons, beq_rename, ih]

theorem rename_ofList (pairs : List (PackageId × Reason)) :
    ofList (pairs.map fun e => (f e.1, e.2)) = (ofList pairs).rename f := by
  rw [ofList, ofList, List.foldl_map, ← rename_empty (f := f)]
  apply List.foldl_hom
  intro rs e
  exact rename_insert e.1 e.2 rs

end Reasons

namespace Decisions

def rename (f : Renaming) (d : Decisions) : Decisions where
  install := d.install.map f
  erase := d.erase.map f
  obsoletes := d.obsoletes.map (Prod.map f f)
  order := d.order.map (Prod.map f f)
  reasons := d.reasons.rename f

end Decisions

theorem comparePairs_rename (f : Renaming) (a b : PackageId × PackageId) :
    comparePairs (Prod.map f f a) (Prod.map f f b) = comparePairs a b := by
  simp only [comparePairs, Prod.map_fst, Prod.map_snd, compare_rename]

end Depsolve
