import Depsolve.Plan.Order
import Depsolve.Proofs.Sort
import Mathlib.Data.List.Nodup
/-!
# Counting down is waiting

The counters say how many of the packages that a package needs are waiting, so the
queue holds the packages that need nothing of what is waiting, and its first one is the
first of the waiting list that is ready.
-/
namespace Depsolve

namespace Universe

variable (u : Universe)

instance : Std.TransCmp u.compareNames :=
  inferInstanceAs (Std.TransCmp (compareLex (compareOn fun id => (u.get id).name) compare))

theorem eq_of_compareNames_eq {a b : PackageId} (h : u.compareNames a b = .eq) : a = b := by
  have hthen := Ordering.then_eq_eq.mp h
  exact Nat.compare_eq_eq.mp hthen.2

instance : Std.LawfulEqCmp u.compareNames where
  eq_of_compare := u.eq_of_compareNames_eq

/-- A list of packages by name and identifier, each once. -/
def ByName (ids : List PackageId) : Prop := ids.Pairwise fun a b => u.compareNames a b = .lt

variable {u} {ids ids' : List PackageId} {id : PackageId}

theorem ByName.eq_of_mem_iff (h : u.ByName ids) (h' : u.ByName ids')
    (hmem : ∀ id, id ∈ ids ↔ id ∈ ids') : ids = ids' :=
  Ascending.eq_of_mem_iff h h' hmem

theorem ByName.nodup (h : u.ByName ids) : ids.Nodup := Ascending.nodup h

theorem byName_of_isLE (h : ids.Pairwise fun a b => (u.compareNames a b).isLE = true)
    (hnodup : ids.Nodup) : u.ByName ids :=
  ascending_of_isLE h hnodup

theorem byName_sortCmp (h : ids.Nodup) : u.ByName (sortCmp u.compareNames ids) :=
  ascending_sortCmp_of_nodup h

theorem sortCmp_filter (h : ids.Nodup) (p : PackageId → Bool) :
    sortCmp u.compareNames (ids.filter p) = (sortCmp u.compareNames ids).filter p := by
  apply (byName_sortCmp (h.filter p)).eq_of_mem_iff ((byName_sortCmp h).filter p)
  intro id
  rw [mem_sortCmp, List.mem_filter, List.mem_filter, mem_sortCmp]

end Universe

namespace Plan

open Universe

variable {u : Universe} {order pairs : List (PackageId × PackageId)}
  {ids waiting : List PackageId} {p : PackageId × PackageId} {id x : PackageId}

/-! ## The pairs that count -/

theorem mem_keepPair {q : PackageId × PackageId} : p ∈ keepPair ids pairs q ↔
    p ∈ pairs ∨ p = q ∧ p.1 ≠ p.2 ∧ p.1 ∈ ids ∧ p.2 ∈ ids := by
  rw [keepPair]
  split
  · rename_i h
    simp only [Bool.and_eq_true, List.contains_iff_mem, bne_iff_ne, ne_eq] at h
    rw [List.mem_append, List.mem_singleton]
    apply or_congr_right
    constructor
    · rintro rfl
      exact ⟨rfl, h.1.2, h.1.1.1, h.1.1.2⟩
    · exact And.left
  · rename_i h
    simp only [Bool.and_eq_true, List.contains_iff_mem, bne_iff_ne, ne_eq,
      Bool.not_eq_true'] at h
    constructor
    · exact Or.inl
    · rintro (hmem | ⟨rfl, hne, h₁, h₂⟩)
      · exact hmem
      · by_contra hno
        exact h ⟨⟨⟨h₁, h₂⟩, hne⟩, by simp [hno]⟩

theorem keepPair_nodup (h : pairs.Nodup) : (keepPair ids pairs p).Nodup := by
  rw [keepPair]
  split
  · rename_i hp
    have hno : p ∉ pairs := by
      simp only [Bool.and_eq_true, Bool.not_eq_true', List.contains_eq_mem,
        decide_eq_false_iff_not] at hp
      exact hp.2
    apply List.nodup_append.mpr
    refine ⟨h, List.nodup_singleton p, ?_⟩
    intro a ha b hb heq
    exact hno (List.mem_singleton.mp hb ▸ heq ▸ ha)
  · exact h

theorem mem_links : p ∈ links order ids ↔ p ∈ order ∧ p.1 ≠ p.2 ∧ p.1 ∈ ids ∧ p.2 ∈ ids := by
  have hfold : ∀ (order kept : List (PackageId × PackageId)),
      p ∈ order.foldl (keepPair ids) kept ↔
        p ∈ kept ∨ p ∈ order ∧ p.1 ≠ p.2 ∧ p.1 ∈ ids ∧ p.2 ∈ ids := by
    intro order
    induction order with
    | nil => simp
    | cons q order ih =>
      intro kept
      rw [List.foldl_cons, ih, mem_keepPair, List.mem_cons, or_and_right, or_assoc]
  simpa [links] using hfold order []

theorem links_nodup : (links order ids).Nodup := by
  have hfold : ∀ (order kept : List (PackageId × PackageId)), kept.Nodup →
      (order.foldl (keepPair ids) kept).Nodup := by
    intro order
    induction order with
    | nil => exact fun _ h => h
    | cons q order ih => exact fun kept h => ih _ (keepPair_nodup h)
  exact hfold order [] .nil

theorem mem_dependents : x ∈ dependents pairs id ↔ (id, x) ∈ pairs := by
  simp only [dependents, List.mem_map, List.mem_filter, beq_iff_eq, Prod.exists]
  constructor
  · rintro ⟨a, b, ⟨hmem, rfl⟩, rfl⟩
    exact hmem
  · intro hmem
    exact ⟨id, x, ⟨hmem, rfl⟩, rfl⟩

theorem dependents_nodup (h : pairs.Nodup) : (dependents pairs id).Nodup := by
  apply List.Nodup.map_on ?_ (h.filter _)
  intro p hp q hq heq
  have hp₁ : p.1 = id := by simpa using (List.mem_filter.mp hp).2
  have hq₁ : q.1 = id := by simpa using (List.mem_filter.mp hq).2
  exact Prod.ext (hp₁.trans hq₁.symm) heq

/-! ## Queues -/

theorem mem_enqueue {ready : List PackageId} :
    x ∈ enqueue u id ready ↔ x = id ∨ x ∈ ready := by
  rw [enqueue]
  split
  · rename_i h
    constructor
    · exact Or.inr
    · rintro (rfl | hx)
      · exact List.contains_iff_mem.mp h
      · exact hx
  · rw [(insertBy_perm _ id ready).mem_iff, List.mem_cons]

theorem enqueue_byName {ready : List PackageId} (h : u.ByName ready) :
    u.ByName (enqueue u id ready) := by
  rw [enqueue]
  split
  · exact h
  · rename_i hno
    apply byName_of_isLE
    · apply insertBy_pairwise
      · exact fun _ _ _ => Std.TransCmp.isLE_trans
      · exact isLE_total
      · exact h.imp Ordering.isLE_of_eq_lt
    · apply (insertBy_perm _ id ready).nodup_iff.mpr
      exact List.nodup_cons.mpr ⟨fun hmem => hno (List.contains_iff_mem.mpr hmem), h.nodup⟩

namespace Queue

variable {q : Queue} {xs : List PackageId}

theorem foldl_countDown_waits (hxs : xs.Nodup) : (xs.foldl (countDown u) q).waits x =
    if x ∈ xs then q.waits x - 1 else q.waits x := by
  induction xs generalizing q with
  | nil => simp
  | cons y xs ih =>
    obtain ⟨hy, hxs⟩ := List.nodup_cons.mp hxs
    rw [List.foldl_cons, ih hxs]
    by_cases hxy : x = y
    · subst hxy
      simp [hy, countDown]
    · simp [hxy, countDown]

theorem mem_foldl_countDown_ready (hxs : xs.Nodup) : x ∈ (xs.foldl (countDown u) q).ready ↔
    x ∈ q.ready ∨ x ∈ xs ∧ q.waits x - 1 = 0 := by
  induction xs generalizing q with
  | nil => simp
  | cons y xs ih =>
    obtain ⟨hy, hxs⟩ := List.nodup_cons.mp hxs
    have hready : x ∈ (countDown u q y).ready ↔ x ∈ q.ready ∨ x = y ∧ q.waits y - 1 = 0 := by
      simp only [countDown]
      split
      · rename_i h
        rw [mem_enqueue, or_comm, and_iff_left h]
      · rename_i h
        simp [h]
    have hwaits : x ∈ xs → (countDown u q y).waits x = q.waits x := by
      intro hx
      have hne : x ≠ y := fun heq => hy (heq ▸ hx)
      simp [countDown, hne]
    rw [List.foldl_cons, ih hxs, hready, List.mem_cons, or_assoc]
    apply or_congr_right
    constructor
    · rintro (⟨rfl, h⟩ | ⟨hx, h⟩)
      · exact ⟨.inl rfl, h⟩
      · exact ⟨.inr hx, hwaits hx ▸ h⟩
    · rintro ⟨rfl | hx, h⟩
      · exact .inl ⟨rfl, h⟩
      · exact .inr ⟨hx, (hwaits hx).symm ▸ h⟩

theorem foldl_countDown_byName (h : u.ByName q.ready) :
    u.ByName (xs.foldl (countDown u) q).ready := by
  induction xs generalizing q with
  | nil => exact h
  | cons y xs ih =>
    apply ih
    simp only [countDown]
    split
    · exact enqueue_byName h
    · exact h

end Queue

/-! ## Waiting lists -/

/-- Whether nothing that `id` needs first is still waiting. -/
def isReady (order : List (PackageId × PackageId)) (waiting : List PackageId)
    (id : PackageId) : Bool :=
  !order.any fun p => p.2 == id && p.1 != id && waiting.contains p.1

/-- Take the first ready package of a list again and again, at most `fuel` times. -/
def readyFirst (order : List (PackageId × PackageId)) : Nat → List PackageId → List PackageId
  | 0, waiting => waiting
  | fuel + 1, waiting =>
    match waiting.find? (isReady order waiting) with
    | some id => id :: readyFirst order fuel (waiting.erase id)
    | none => waiting

theorem isReady_iff : isReady order waiting id = true ↔
    ∀ a, (a, id) ∈ order → a ≠ id → a ∉ waiting := by
  simp only [isReady, Bool.not_eq_true', List.any_eq_false, Prod.forall]
  constructor
  · intro h a hmem hne hin
    exact h a id hmem (by simp [hne, hin])
  · intro h a b hmem htrue
    simp only [Bool.and_eq_true, beq_iff_eq, bne_iff_ne, List.contains_iff_mem] at htrue
    obtain ⟨⟨rfl, hne⟩, hin⟩ := htrue
    exact h a hmem hne hin

/-- How many pairs say that `id` needs something that is waiting. -/
def unmet (pairs : List (PackageId × PackageId)) (waiting : List PackageId) (id : PackageId) :
    Nat :=
  pairs.countP fun p => p.2 == id && waiting.contains p.1

theorem unmet_eq_zero : unmet pairs waiting x = 0 ↔ ∀ a, (a, x) ∈ pairs → a ∉ waiting := by
  simp only [unmet, List.countP_eq_zero, Bool.and_eq_true, beq_iff_eq, List.contains_iff_mem,
    not_and, Prod.forall]
  constructor
  · intro h a hmem
    exact h a x hmem rfl
  · rintro h a b hmem rfl
    exact h a hmem

theorem unmet_erase (hpairs : pairs.Nodup) (hwaiting : waiting.Nodup) (hid : id ∈ waiting) :
    unmet pairs waiting x =
      unmet pairs (waiting.erase id) x + if (id, x) ∈ pairs then 1 else 0 := by
  induction pairs with
  | nil => simp [unmet]
  | cons p pairs ih =>
    obtain ⟨a, b⟩ := p
    obtain ⟨hp, hpairs⟩ := List.nodup_cons.mp hpairs
    have hcons : ∀ waiting, unmet ((a, b) :: pairs) waiting x =
        unmet pairs waiting x + if b = x ∧ a ∈ waiting then 1 else 0 := by
      intro waiting
      simp [unmet, List.countP_cons]
    rw [hcons, hcons, ih hpairs]
    simp only [List.mem_cons, Prod.mk.injEq]
    by_cases hb : b = x
    · subst hb
      by_cases ha : a = id
      · subst ha
        simp [hid, hp, hwaiting.not_mem_erase]
      · simp only [true_and, List.mem_erase_of_ne ha, Ne.symm ha, false_and, false_or]
        omega
    · simp [hb, Ne.symm hb]

/-- The counters count, and the queue holds what has nothing left to count. -/
structure Counted (u : Universe) (pairs : List (PackageId × PackageId))
    (waiting : List PackageId) (q : Queue) : Prop where
  byName : u.ByName waiting
  waits : ∀ id ∈ waiting, q.waits id = unmet pairs waiting id
  ready : q.ready = waiting.filter fun id => unmet pairs waiting id == 0
  /-- What needs something that is waiting is waiting as well. -/
  closed : ∀ p ∈ pairs, p.1 ∈ waiting → p.2 ∈ waiting

namespace Counted

variable {q : Queue} {ready : List PackageId}

theorem mem_ready (h : Counted u pairs waiting q) :
    x ∈ q.ready ↔ x ∈ waiting ∧ unmet pairs waiting x = 0 := by
  rw [h.ready, List.mem_filter, beq_iff_eq]

/-- No counter is taken below zero: what needs a ready package still waits for it. -/
theorem waits_pos (h : Counted u pairs waiting q) (hid : id ∈ q.ready)
    (hx : x ∈ dependents pairs id) : 0 < q.waits x := by
  have hin := (h.mem_ready.mp hid).1
  have hpair := mem_dependents.mp hx
  rw [h.waits x (h.closed _ hpair hin), Nat.pos_iff_ne_zero]
  intro hzero
  exact unmet_eq_zero.mp hzero id hpair hin

theorem byName_ready (h : Counted u pairs waiting q) : u.ByName q.ready := by
  rw [h.ready]
  exact h.byName.filter _

theorem mem_ready_step (hpairs : pairs.Nodup) (h : Counted u pairs waiting q)
    (hready : q.ready = id :: ready) :
    x ∈ ((dependents pairs id).foldl (Queue.countDown u) { q with ready }).ready ↔
      x ∈ waiting.erase id ∧ unmet pairs (waiting.erase id) x = 0 := by
  have hid := h.mem_ready.mp (hready ▸ List.mem_cons_self)
  have hmem : x ∈ id :: ready ↔ x ∈ waiting ∧ unmet pairs waiting x = 0 := by
    rw [← hready, h.mem_ready]
  have hfirst : id ∉ ready := (List.nodup_cons.mp (hready ▸ h.byName_ready.nodup)).1
  have hless := unmet_erase (x := x) hpairs h.byName.nodup hid.1
  rw [Queue.mem_foldl_countDown_ready (dependents_nodup hpairs), mem_dependents,
    h.byName.nodup.mem_erase_iff]
  show x ∈ ready ∨ (id, x) ∈ pairs ∧ q.waits x - 1 = 0 ↔ _
  constructor
  · rintro (hin | ⟨hpair, hlast⟩)
    · have hx := hmem.mp (List.mem_cons_of_mem _ hin)
      have hne : x ≠ id := fun heq => hfirst (heq ▸ hin)
      exact ⟨⟨hne, hx.1⟩, by omega⟩
    · have hx := h.closed _ hpair hid.1
      have hne : x ≠ id := fun heq => unmet_eq_zero.mp hid.2 id (heq ▸ hpair) hid.1
      rw [h.waits x hx] at hlast
      rw [if_pos hpair] at hless
      exact ⟨⟨hne, hx⟩, by omega⟩
  · rintro ⟨⟨hne, hx⟩, hzero⟩
    by_cases hpair : (id, x) ∈ pairs
    · right
      rw [if_pos hpair] at hless
      rw [h.waits x hx]
      exact ⟨hpair, by omega⟩
    · left
      rw [if_neg hpair] at hless
      exact (List.mem_cons.mp (hmem.mpr ⟨hx, by omega⟩)).resolve_left hne

theorem step (hpairs : pairs.Nodup) (h : Counted u pairs waiting q)
    (hready : q.ready = id :: ready) :
    Counted u pairs (waiting.erase id)
      ((dependents pairs id).foldl (Queue.countDown u) { q with ready }) := by
  have hid := h.mem_ready.mp (hready ▸ List.mem_cons_self)
  have hbyName : u.ByName (waiting.erase id) := h.byName.sublist List.erase_sublist
  constructor
  · exact hbyName
  · intro x hx
    have hwaits : q.waits x = unmet pairs waiting x := h.waits x (List.mem_of_mem_erase hx)
    have hless := unmet_erase (x := x) hpairs h.byName.nodup hid.1
    rw [Queue.foldl_countDown_waits (dependents_nodup hpairs)]
    simp only [mem_dependents, hwaits, hless]
    split <;> rfl
  · have hrest : u.ByName ready := (List.pairwise_cons.mp (hready ▸ h.byName_ready)).2
    apply (Queue.foldl_countDown_byName (q := { q with ready }) hrest).eq_of_mem_iff
      (hbyName.filter _)
    intro x
    rw [h.mem_ready_step hpairs hready, List.mem_filter, beq_iff_eq]
  · intro p hp hfirst
    have hwaiting := List.mem_of_mem_erase hfirst
    apply (List.mem_erase_of_ne ?_).mpr (h.closed p hp hwaiting)
    intro heq
    exact unmet_eq_zero.mp hid.2 p.1 (heq ▸ hp) hwaiting

end Counted

theorem counted_start (hids : ids.Nodup) :
    Counted u (links order ids) (sortCmp u.compareNames ids)
      (Queue.start u (links order ids) ids) := by
  have hunmet : ∀ x, unmet (links order ids) (sortCmp u.compareNames ids) x =
      (links order ids).countP fun p => p.2 == x := by
    intro x
    apply List.countP_congr
    intro p hp
    have hfirst := (mem_links.mp hp).2.2.1
    simp [hfirst]
  constructor
  · exact byName_sortCmp hids
  · intro x _
    exact (hunmet x).symm
  · simp only [hunmet]
    exact sortCmp_filter hids _
  · intro p hp _
    exact mem_sortCmp.mpr (mem_links.mp hp).2.2.2

theorem isReady_eq_unmet (hsub : ∀ x ∈ waiting, x ∈ ids) (hx : x ∈ waiting) :
    isReady order waiting x = (unmet (links order ids) waiting x == 0) := by
  rw [Bool.eq_iff_iff, isReady_iff, beq_iff_eq, unmet_eq_zero]
  constructor
  · intro h a hpair
    have hlink := mem_links.mp hpair
    exact h a hlink.1 hlink.2.1
  · intro h a hpair hne hin
    exact h a (mem_links.mpr ⟨hpair, hne, hsub a hin, hsub x hx⟩) hin

/-- The queue takes the packages that a waiting list gives, and leaves those that it keeps. -/
theorem readyFirst_eq_drain {fuel : Nat} {q : Queue} (hfuel : waiting.length ≤ fuel)
    (hsub : ∀ x ∈ waiting, x ∈ ids) (h : Counted u (links order ids) waiting q) :
    readyFirst order fuel waiting = Queue.drain u (links order ids) fuel q ++
      waiting.filter fun x => !(Queue.drain u (links order ids) fuel q).contains x := by
  -- each step takes the first ready package off the waiting list and off the queue
  induction fuel generalizing waiting q with
  | zero =>
    have hnil : waiting = [] := List.length_eq_zero_iff.mp (Nat.le_zero.mp hfuel)
    rw [hnil]
    rfl
  | succ fuel ih =>
    have hready : waiting.filter (isReady order waiting) = q.ready := by
      rw [h.ready]
      exact List.filter_congr fun x hx => isReady_eq_unmet hsub hx
    rw [readyFirst, ← List.head?_filter, hready, Queue.drain]
    cases hq : q.ready with
    | nil => simp
    | cons id ready =>
      have hid : id ∈ waiting := (h.mem_ready.mp (hq ▸ List.mem_cons_self)).1
      have hlength : (waiting.erase id).length ≤ fuel := by
        rw [List.length_erase_of_mem hid]
        omega
      have hrest := ih hlength (fun x hx => hsub x (List.mem_of_mem_erase hx))
        (h.step links_nodup hq)
      simp only [List.head?_cons, hrest, List.cons_append]
      rw [h.byName.nodup.erase_eq_filter, List.filter_filter]
      congr 2
      apply List.filter_congr
      intro x _
      rw [List.contains_cons, Bool.not_or, Bool.and_comm]
      rfl

/-- Counting down arranges packages as taking the first ready one again and again does. -/
theorem arrange_eq_readyFirst (hids : ids.Nodup) :
    arrange u order ids = readyFirst order ids.length (sortCmp u.compareNames ids) := by
  have hlength : (sortCmp u.compareNames ids).length ≤ ids.length :=
    (sortBy_perm _ ids).length_eq.le
  rw [readyFirst_eq_drain hlength (fun _ => mem_sortCmp.mp) (counted_start hids), arrange,
    sortCmp_filter hids]

end Plan

end Depsolve
