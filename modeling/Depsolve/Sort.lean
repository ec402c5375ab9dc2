/-!
# Stable sorting

Insertion sort by a Boolean order. Elements that the order does not separate
keep their places relative to each other.
-/
namespace Depsolve

variable {α : Type}

/-- Put `a` before the first element that is not strictly below it. -/
def insertBy (le : α → α → Bool) (a : α) : List α → List α
  | [] => [a]
  | b :: l => if le a b then a :: b :: l else b :: insertBy le a l

def sortBy (le : α → α → Bool) : List α → List α
  | [] => []
  | a :: l => insertBy le a (sortBy le l)

def sortCmp (cmp : α → α → Ordering) (l : List α) : List α :=
  sortBy (fun a b => (cmp a b).isLE) l

theorem insertBy_perm (le : α → α → Bool) (a : α) (l : List α) :
    (insertBy le a l).Perm (a :: l) := by
  induction l with
  | nil => exact .refl _
  | cons b l ih =>
    simp only [insertBy]
    split
    · exact .refl _
    · exact (ih.cons b).trans (.swap a b l)

theorem sortBy_perm (le : α → α → Bool) (l : List α) : (sortBy le l).Perm l := by
  induction l with
  | nil => exact .refl _
  | cons a l ih => exact (insertBy_perm le a _).trans (ih.cons a)

theorem insertBy_pairwise {le : α → α → Bool}
    (htrans : ∀ a b c, le a b = true → le b c = true → le a c = true)
    (htotal : ∀ a b, le a b = true ∨ le b a = true) (a : α) {l : List α}
    (h : l.Pairwise fun a b => le a b = true) :
    (insertBy le a l).Pairwise fun a b => le a b = true := by
  induction l with
  | nil => exact List.pairwise_singleton ..
  | cons b l ih =>
    have hb := List.pairwise_cons.mp h
    simp only [insertBy]
    split
    · rename_i hab
      refine List.pairwise_cons.mpr ⟨fun c hc => ?_, h⟩
      rcases List.mem_cons.mp hc with rfl | hc
      · exact hab
      · exact htrans _ _ _ hab (hb.1 c hc)
    · rename_i hab
      refine List.pairwise_cons.mpr ⟨fun c hc => ?_, ih hb.2⟩
      rcases List.mem_cons.mp ((insertBy_perm le a l).mem_iff.mp hc) with rfl | hc
      · exact (htotal _ _).resolve_left hab
      · exact hb.1 c hc

theorem sortBy_pairwise {le : α → α → Bool}
    (htrans : ∀ a b c, le a b = true → le b c = true → le a c = true)
    (htotal : ∀ a b, le a b = true ∨ le b a = true) (l : List α) :
    (sortBy le l).Pairwise fun a b => le a b = true := by
  induction l with
  | nil => exact .nil
  | cons a l ih => exact insertBy_pairwise htrans htotal a ih

theorem transCmp_comap {α β : Type} (cmp : β → β → Ordering) [Std.TransCmp cmp] (f : α → β) :
    Std.TransCmp fun a b => cmp (f a) (f b) where
  eq_swap := Std.OrientedCmp.eq_swap
  isLE_trans := Std.TransCmp.isLE_trans

theorem isLE_total {cmp : α → α → Ordering} [Std.OrientedCmp cmp] (a b : α) :
    (cmp a b).isLE = true ∨ (cmp b a).isLE = true := by
  by_cases h : (cmp a b).isLE = true
  · exact .inl h
  · exact .inr (Ordering.isLE_of_eq_lt (Std.OrientedCmp.lt_of_not_isLE h))

theorem sortCmp_pairwise {cmp : α → α → Ordering} [Std.TransCmp cmp] (l : List α) :
    (sortCmp cmp l).Pairwise fun a b => (cmp a b).isLE = true :=
  sortBy_pairwise (fun _ _ _ => Std.TransCmp.isLE_trans) isLE_total l

@[simp] theorem mem_sortBy {le : α → α → Bool} {a : α} {l : List α} :
    a ∈ sortBy le l ↔ a ∈ l := (sortBy_perm le l).mem_iff

@[simp] theorem mem_sortCmp {cmp : α → α → Ordering} {a : α} {l : List α} :
    a ∈ sortCmp cmp l ↔ a ∈ l := mem_sortBy

private theorem mem_eraseRepsBy_loop [BEq α] [LawfulBEq α] (b : α) (l done : List α) (a : α) :
    a ∈ List.eraseRepsBy.loop (· == ·) b l done ↔ a ∈ done ∨ a = b ∨ a ∈ l := by
  induction l generalizing b done with
  | nil => simp [List.eraseRepsBy.loop, or_comm]
  | cons c l ih =>
    rw [List.eraseRepsBy.loop]
    split
    · rename_i h
      have heq : b = c := beq_iff_eq.mp h
      rw [ih, List.mem_cons, heq, ← or_assoc (a := a = c), or_self]
    · rw [ih, List.mem_cons, List.mem_cons, or_assoc, or_left_comm]

@[simp] theorem mem_eraseReps [BEq α] [LawfulBEq α] {a : α} {l : List α} :
    a ∈ l.eraseReps ↔ a ∈ l := by
  cases l with
  | nil => rfl
  | cons b l =>
    rw [List.eraseReps, List.eraseRepsBy, mem_eraseRepsBy_loop, List.mem_cons]
    simp

end Depsolve
