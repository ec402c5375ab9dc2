import Depsolve.Sort
import Mathlib.Data.List.Sort
/-!
# What stable sorting determines

Sorting by a total preorder brings the classes of elements that the order does not
separate into order, and leaves each class as it is. Nothing else is left to choose,
so lists with the same classes are sorted alike. An order that separates all elements
leaves one ascending list of the members, and a flag brings what has it to the end.
-/
namespace Depsolve

variable {α : Type} {le : α → α → Bool}

theorem insertBy_eq_orderedInsert (le : α → α → Bool) (a : α) (l : List α) :
    insertBy le a l = l.orderedInsert (fun a b => le a b = true) a := by
  induction l with
  | nil => rfl
  | cons b l ih => simp only [insertBy, List.orderedInsert_cons, ih]

theorem sortBy_eq_insertionSort (le : α → α → Bool) (l : List α) :
    sortBy le l = l.insertionSort fun a b => le a b = true := by
  induction l with
  | nil => rfl
  | cons a l ih => rw [sortBy, insertBy_eq_orderedInsert, ih, List.insertionSort_cons]

def tied (le : α → α → Bool) (a b : α) : Bool := le a b && le b a

theorem filter_tied_pairwise
    (htrans : ∀ a b c, le a b = true → le b c = true → le a c = true) (a : α) (l : List α) :
    (l.filter (tied le a)).Pairwise fun b c => le b c = true := by
  refine List.pairwise_of_forall_mem_list fun b hb c hc => ?_
  have hab := Bool.and_eq_true_iff.mp (List.mem_filter.mp hb).2
  have hac := Bool.and_eq_true_iff.mp (List.mem_filter.mp hc).2
  exact htrans b a c hab.2 hac.1

/-- Sorting leaves each class as it is. -/
theorem filter_tied_sortBy (htrans : ∀ a b c, le a b = true → le b c = true → le a c = true)
    (a : α) (l : List α) : (sortBy le l).filter (tied le a) = l.filter (tied le a) := by
  have hsub : (l.filter (tied le a)).Sublist (sortBy le l) := by
    rw [sortBy_eq_insertionSort]
    exact List.sublist_insertionSort (filter_tied_pairwise htrans a l) List.filter_sublist
  have hclass := hsub.filter (tied le a)
  rw [List.filter_filter, List.filter_congr fun b _ => Bool.and_self (tied le a b)] at hclass
  exact (hclass.eq_of_length ((sortBy_perm le l).filter _).length_eq.symm).symm

section Total

variable (htotal : ∀ a b, le a b = true ∨ le b a = true)

include htotal

theorem le_self_of_total (a : α) : le a a = true := or_self_iff.mp (htotal a a)

theorem tied_self (a : α) : tied le a a = true := by
  rw [tied, le_self_of_total htotal, Bool.and_self]

theorem mem_iff_of_filter_tied {l k : List α}
    (h : ∀ a, l.filter (tied le a) = k.filter (tied le a)) (a : α) : a ∈ l ↔ a ∈ k := by
  have hself : ∀ m : List α, a ∈ m.filter (tied le a) ↔ a ∈ m := by
    intro m
    rw [List.mem_filter, and_iff_left (tied_self htotal a)]
  rw [← hself, h, hself]

theorem le_of_mem_cons {a b : α} {l : List α}
    (hl : (a :: l).Pairwise fun a b => le a b = true) (hb : b ∈ a :: l) : le a b = true := by
  rcases List.mem_cons.mp hb with rfl | hb
  · exact le_self_of_total htotal b
  · exact (List.pairwise_cons.mp hl).1 b hb

theorem eq_of_filter_tied {l k : List α} (hl : l.Pairwise fun a b => le a b = true)
    (hk : k.Pairwise fun a b => le a b = true)
    (h : ∀ a, l.filter (tied le a) = k.filter (tied le a)) : l = k := by
  have hmem := mem_iff_of_filter_tied htotal h
  induction l generalizing k with
  | nil =>
    cases k with
    | nil => rfl
    | cons b k => exact absurd ((hmem b).mpr List.mem_cons_self) List.not_mem_nil
  | cons a l ih =>
    cases k with
    | nil => exact absurd ((hmem a).mp List.mem_cons_self) List.not_mem_nil
    | cons b k =>
      -- both are least, so they are the first of one class
      have hab : tied le a b = true := by
        rw [tied, le_of_mem_cons htotal hl ((hmem b).mpr List.mem_cons_self),
          le_of_mem_cons htotal hk ((hmem a).mp List.mem_cons_self), Bool.and_self]
      have hfirst := h a
      rw [List.filter_cons_of_pos (tied_self htotal a), List.filter_cons_of_pos hab] at hfirst
      obtain ⟨rfl, -⟩ := List.cons.inj hfirst
      have hrest : ∀ c, l.filter (tied le c) = k.filter (tied le c) := by
        intro c
        have hc := h c
        rw [List.filter_cons, List.filter_cons] at hc
        split at hc
        · exact (List.cons.inj hc).2
        · exact hc
      rw [ih (List.pairwise_cons.mp hl).2 (List.pairwise_cons.mp hk).2 hrest
        (mem_iff_of_filter_tied htotal hrest)]

theorem sortBy_eq_of_filter_tied
    (htrans : ∀ a b c, le a b = true → le b c = true → le a c = true) {l k : List α}
    (h : ∀ a, l.filter (tied le a) = k.filter (tied le a)) : sortBy le l = sortBy le k := by
  apply eq_of_filter_tied htotal (sortBy_pairwise htrans htotal l)
    (sortBy_pairwise htrans htotal k)
  intro a
  rw [filter_tied_sortBy htrans, filter_tied_sortBy htrans, h]

end Total

/-! ### Dropping repetitions -/

section Repetitions

variable [BEq α]

private theorem eraseReps_loop_append (b : α) (l done : List α) :
    List.eraseRepsBy.loop (· == ·) b l done =
      done.reverse ++ List.eraseRepsBy.loop (· == ·) b l [] := by
  induction l generalizing b done with
  | nil => simp [List.eraseRepsBy.loop]
  | cons c l ih =>
    rw [List.eraseRepsBy.loop, List.eraseRepsBy.loop]
    split
    · exact ih b done
    · rw [ih c (b :: done), ih c [b]]
      simp

variable [LawfulBEq α]

theorem eraseReps_cons_self (a : α) (l : List α) :
    (a :: a :: l).eraseReps = (a :: l).eraseReps := by
  rw [List.eraseReps, List.eraseReps, List.eraseRepsBy, List.eraseRepsBy, List.eraseRepsBy.loop,
    beq_self_eq_true]

theorem eraseReps_cons_of_ne {a b : α} (h : a ≠ b) (l : List α) :
    (a :: b :: l).eraseReps = a :: (b :: l).eraseReps := by
  rw [List.eraseReps, List.eraseReps, List.eraseRepsBy, List.eraseRepsBy, List.eraseRepsBy.loop,
    beq_false_of_ne h]
  exact eraseReps_loop_append b l [a]

end Repetitions

/-! ### Strictly ascending lists -/

def Ascending (cmp : α → α → Ordering) (l : List α) : Prop :=
  l.Pairwise fun a b => cmp a b = .lt

section Ascending

variable {cmp : α → α → Ordering} {l k : List α}

theorem lt_of_isLE_of_ne [Std.LawfulEqCmp cmp] {a b : α} (hle : (cmp a b).isLE = true)
    (hne : a ≠ b) : cmp a b = .lt :=
  (Ordering.isLE_iff_eq_lt_or_eq_eq.mp hle).resolve_right fun heq =>
    hne (Std.LawfulEqCmp.eq_of_compare heq)

theorem ascending_of_isLE [Std.LawfulEqCmp cmp]
    (h : l.Pairwise fun a b => (cmp a b).isLE = true) (hnodup : l.Nodup) : Ascending cmp l :=
  (h.and hnodup).imp fun h => lt_of_isLE_of_ne h.1 h.2

variable [Std.TransCmp cmp]

instance irrefl_lt : Std.Irrefl fun a b => cmp a b = .lt where
  irrefl a h := by
    have hself : cmp a a = .eq := Std.ReflCmp.compare_self
    rw [hself] at h
    cases h

instance antisymm_lt : Std.Antisymm fun a b => cmp a b = .lt where
  antisymm _ _ hab hba := absurd hab (Std.OrientedCmp.not_lt_of_lt hba)

theorem Ascending.eq_of_mem_iff (hl : Ascending cmp l) (hk : Ascending cmp k)
    (hmem : ∀ a, a ∈ l ↔ a ∈ k) : l = k :=
  List.Pairwise.eq_of_mem_iff hl hk hmem

theorem Ascending.nodup (h : Ascending cmp l) : l.Nodup := List.Pairwise.nodup h

variable [Std.LawfulEqCmp cmp]

theorem ascending_sortCmp_of_nodup (h : l.Nodup) : Ascending cmp (sortCmp cmp l) :=
  ascending_of_isLE (sortCmp_pairwise l) ((sortBy_perm _ l).nodup_iff.mpr h)

variable [BEq α] [LawfulBEq α]

/-- In a sorted list repetitions are neighbours, so none is left once those are dropped. -/
theorem ascending_eraseReps (h : l.Pairwise fun a b => (cmp a b).isLE = true) :
    Ascending cmp l.eraseReps := by
  induction l with
  | nil => exact List.Pairwise.nil
  | cons a l ih =>
    have hl := List.pairwise_cons.mp h
    cases l with
    | nil => exact List.pairwise_singleton ..
    | cons b l =>
      by_cases heq : a = b
      · rw [heq, eraseReps_cons_self]
        exact ih hl.2
      · have hab : cmp a b = .lt := lt_of_isLE_of_ne (hl.1 b List.mem_cons_self) heq
        rw [eraseReps_cons_of_ne heq]
        refine List.pairwise_cons.mpr ⟨fun c hc => ?_, ih hl.2⟩
        rcases List.mem_cons.mp (mem_eraseReps.mp hc) with rfl | hc
        · exact hab
        · exact Std.TransCmp.lt_of_lt_of_isLE hab ((List.pairwise_cons.mp hl.2).1 c hc)

theorem eq_eraseReps_sortCmp_iff :
    l = (sortCmp cmp k).eraseReps ↔ Ascending cmp l ∧ ∀ a, a ∈ l ↔ a ∈ k := by
  have hsorted : Ascending cmp (sortCmp cmp k).eraseReps := ascending_eraseReps (sortCmp_pairwise k)
  have hmem : ∀ a, a ∈ (sortCmp cmp k).eraseReps ↔ a ∈ k := by simp
  constructor
  · rintro rfl
    exact ⟨hsorted, hmem⟩
  · rintro ⟨hl, hlk⟩
    exact hl.eq_of_mem_iff hsorted fun a => (hlk a).trans (hmem a).symm

end Ascending

/-! ### Sorting by a flag -/

section Flag

variable {flag : α → Bool}

private theorem insertBy_of_flag_false {a : α} (h : flag a = false) (l : List α) :
    insertBy (fun a b => (compareOn flag a b).isLE) a l = a :: l := by
  cases l with
  | nil => rfl
  | cons b l =>
    have hle : (compareOn flag a b).isLE = true := by
      rw [compareOn, h]
      cases flag b <;> decide
    rw [insertBy, if_pos hle]

private theorem insertBy_of_flag_true {a : α} (h : flag a = true) {front back : List α}
    (hfront : ∀ b ∈ front, flag b = false) (hback : ∀ b ∈ back, flag b = true) :
    insertBy (fun a b => (compareOn flag a b).isLE) a (front ++ back) = front ++ a :: back := by
  induction front with
  | nil =>
    cases back with
    | nil => rfl
    | cons b back =>
      have hle : (compareOn flag a b).isLE = true := by
        rw [compareOn, h, hback b List.mem_cons_self]
        decide
      rw [List.nil_append, insertBy, if_pos hle]
      rfl
  | cons b front ih =>
    have hgt : ¬ (compareOn flag a b).isLE = true := by
      rw [compareOn, h, hfront b List.mem_cons_self]
      decide
    rw [List.cons_append, insertBy, if_neg hgt,
      ih fun c hc => hfront c (List.mem_cons_of_mem _ hc)]
    rfl

/-- Sorting by a flag brings what does not have it to the front, and changes no order else. -/
theorem sortCmp_flag (flag : α → Bool) (l : List α) :
    sortCmp (compareOn flag) l = l.filter (fun a => !flag a) ++ l.filter flag := by
  induction l with
  | nil => rfl
  | cons a l ih =>
    rw [sortCmp] at ih
    rw [sortCmp, sortBy, ih]
    cases h : flag a with
    | false => simp [insertBy_of_flag_false h, h]
    | true =>
      rw [insertBy_of_flag_true h (by simp) (by simp)]
      simp [h]

end Flag

end Depsolve
