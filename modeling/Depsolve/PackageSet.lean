import Depsolve.IdSet
import Depsolve.PackageSet.Iter
/-!
# Package sets

A set of identifiers of one universe, kept as the ones of a row of words. The set knows the
generation of that universe and the number of its identifiers, never holds an identifier beyond
them, and is combined only with sets of the same universe.
-/
namespace Depsolve

structure PackageSet where
  generation : Nat
  /-- The number of identifiers, not of members. -/
  capacity : Nat
  words : List UInt64
  fits : Words.Fits words capacity
deriving DecidableEq

/-- Sets of two universes were combined. -/
structure UniverseMismatch where
  expected : Nat
  found : Nat
deriving DecidableEq

def UniverseMismatch.message (e : UniverseMismatch) : String :=
  s!"Package set from universe generation {e.found} used with generation {e.expected}"

namespace PackageSet

def empty (generation capacity : Nat) : PackageSet where
  generation := generation
  capacity := capacity
  words := List.replicate (Words.count capacity) 0
  fits := .replicate_zero capacity

instance : Inhabited PackageSet := ⟨empty 0 0⟩

def full (generation capacity : Nat) : PackageSet where
  generation := generation
  capacity := capacity
  words := Words.clearTail capacity (List.replicate (Words.count capacity) (~~~0))
  fits := .clearTail List.length_replicate

def contains (s : PackageSet) (id : Nat) : Bool :=
  if h : id < s.capacity then
    s.words.get ⟨id / 64, s.fits.index_lt h⟩ &&& Word.single (id % 64) != 0
  else false

instance : Membership Nat PackageSet := ⟨fun s id => s.contains id = true⟩

instance (s : PackageSet) (id : Nat) : Decidable (id ∈ s) :=
  inferInstanceAs (Decidable (s.contains id = true))

/-- Identifiers beyond the universe are ignored. -/
def insert (s : PackageSet) (id : Nat) : PackageSet :=
  if h : id < s.capacity then
    { s with words := Words.set s.words id, fits := s.fits.set h }
  else s

def remove (s : PackageSet) (id : Nat) : PackageSet :=
  if h : id < s.capacity then
    { s with words := Words.unset s.words id, fits := s.fits.unset h }
  else s

def toList (s : PackageSet) : List Nat := Words.toList s.words

def size (s : PackageSet) : Nat := Words.countOnes s.words

def isEmpty (s : PackageSet) : Bool := s.words.all (· == 0)

/-- The members, whatever universe they are of. -/
def members (s : PackageSet) : IdSet := .ofList s.toList

def ofIds (generation capacity : Nat) (ids : List Nat) : PackageSet :=
  ids.foldl insert (empty generation capacity)

/-- Sets combine when they are of the same universe. -/
def check (s t : PackageSet) : Except UniverseMismatch Unit :=
  if s.generation = t.generation ∧ s.capacity = t.capacity then .ok ()
  else .error ⟨s.generation, t.generation⟩

theorem check_eq_ok {s t : PackageSet} :
    s.check t = .ok () ↔ s.generation = t.generation ∧ s.capacity = t.capacity := by
  simp [check]

inductive Combination where
  | union
  | inter
  | diff
deriving DecidableEq

namespace Combination

def onWords : Combination → UInt64 → UInt64 → UInt64
  | .union, v, w => v ||| w
  | .inter, v, w => v &&& w
  | .diff, v, w => v &&& ~~~w

def onBits : Combination → Bool → Bool → Bool
  | .union, a, b => a || b
  | .inter, a, b => a && b
  | .diff, a, b => a && !b

theorem bit_onWords (c : Combination) (v w : UInt64) (i : Nat) (h : i < 64) :
    Word.bit (c.onWords v w) i = c.onBits (Word.bit v i) (Word.bit w i) := by
  cases c <;> simp [onWords, onBits, h]

theorem onBits_false (c : Combination) : c.onBits false false = false := by
  cases c <;> rfl

end Combination

/-- The receiver after it was combined in place, and whether that succeeded. -/
def combineWith (c : Combination) (s t : PackageSet) : PackageSet × Except UniverseMismatch Unit :=
  match h : s.check t with
  | .ok () =>
    ({ s with
        words := s.words.zipWith c.onWords t.words
        fits := .zipWith c.bit_onWords c.onBits_false s.fits ((check_eq_ok.mp h).2 ▸ t.fits) },
      .ok ())
  | .error e => (s, .error e)

def combine (c : Combination) (s t : PackageSet) : Except UniverseMismatch PackageSet :=
  match combineWith c s t with
  | (out, .ok ()) => .ok out
  | (_, .error e) => .error e

def complement (s : PackageSet) : PackageSet :=
  { s with
    words := Words.clearTail s.capacity (s.words.map (~~~·))
    fits := .clearTail ((List.length_map _).trans s.fits.length) }

def filter (s : PackageSet) (p : Nat → Bool) : PackageSet :=
  s.toList.foldl (fun out id => if p id then out else out.remove id) s

def describe (s : PackageSet) : String :=
  s!"PackageSet \x7b generation: {s.generation}, ids: " ++
    "[" ++ ", ".intercalate (s.toList.map toString) ++ "] \x7d"

variable {s t : PackageSet}

theorem contains_eq (s : PackageSet) (id : Nat) : s.contains id = Words.bit s.words id := by
  rw [contains]
  split
  · next h =>
    have hindex := s.fits.index_lt h
    rw [Word.and_single_ne_zero (Nat.mod_lt _ (by decide))]
    simp [Words.bit, hindex]
  · next h => exact (s.fits.tail id (Nat.le_of_not_lt h)).symm

theorem mem_iff_bit {id : Nat} : id ∈ s ↔ Words.bit s.words id = true := by
  rw [← contains_eq]
  rfl

theorem lt_capacity {id : Nat} (h : id ∈ s) : id < s.capacity := by
  refine Nat.lt_of_not_le fun hge => ?_
  rw [mem_iff_bit, s.fits.tail id hge] at h
  cases h

theorem ext_mem (hgeneration : s.generation = t.generation) (hcapacity : s.capacity = t.capacity)
    (hmem : ∀ id, id ∈ s ↔ id ∈ t) : s = t := by
  have hlength : s.words.length = t.words.length := by
    rw [s.fits.length, t.fits.length, hcapacity]
  have hwords : s.words = t.words :=
    Words.ext hlength fun id => Bool.eq_iff_iff.mpr (by rw [← mem_iff_bit, ← mem_iff_bit, hmem])
  cases s
  cases t
  cases hgeneration
  cases hcapacity
  cases hwords
  rfl

@[simp] theorem mem_toList {id : Nat} : id ∈ s.toList ↔ id ∈ s :=
  Words.mem_toList.trans mem_iff_bit.symm

theorem mem_def {id : Nat} : id ∈ s ↔ id ∈ s.members := by
  rw [members, IdSet.mem_ofList, mem_toList]

theorem toList_pairwise (s : PackageSet) : s.toList.Pairwise (· < ·) :=
  Words.toList_pairwise s.words

theorem toList_nodup (s : PackageSet) : s.toList.Nodup :=
  (toList_pairwise s).imp Nat.ne_of_lt

theorem contains_eq_members (s : PackageSet) (id : Nat) : s.contains id = s.members.contains id :=
  Bool.eq_iff_iff.mpr mem_def

theorem toList_eq_members (s : PackageSet) : s.toList = s.members.toList :=
  Words.eq_of_ascending (toList_pairwise s) (IdSet.toList_pairwise _) fun id => by
    rw [mem_toList, IdSet.mem_toList, mem_def]

theorem length_toList (s : PackageSet) : s.toList.length = s.size := Words.length_toList s.words

theorem size_members (s : PackageSet) : s.members.size = s.size := by
  rw [IdSet.size, ← toList_eq_members, length_toList]

theorem isEmpty_iff : s.isEmpty = true ↔ ∀ id, id ∉ s := by
  simp only [isEmpty, Words.all_eq_zero_iff, mem_iff_bit, Bool.not_eq_true]

theorem isEmpty_eq_members (s : PackageSet) : s.isEmpty = s.members.isEmpty := by
  rw [Bool.eq_iff_iff, isEmpty_iff, IdSet.isEmpty_iff]
  exact forall_congr' fun id => not_congr mem_def

@[simp] theorem not_mem_empty (g n id : Nat) : id ∉ empty g n := by
  simp [mem_iff_bit, empty, Words.bit_replicate]

@[simp] theorem mem_full {g n id : Nat} : id ∈ full g n ↔ id < n := by
  have hmod : id % 64 < 64 := Nat.mod_lt _ (by decide)
  have hrow : id < n → id < 64 * Words.count n := by
    rw [Words.count]
    omega
  rw [mem_iff_bit, full, Words.bit_clearTail List.length_replicate, Words.bit_replicate,
    Word.bit_not]
  simpa [hmod] using hrow

@[simp] theorem mem_insert {a id : Nat} : id ∈ s.insert a ↔ id ∈ s ∨ id = a ∧ a < s.capacity := by
  unfold insert
  split
  · next h => simp [mem_iff_bit, Words.bit_set (s.fits.index_lt h), h]
  · next h => simp [h]

@[simp] theorem mem_remove {a id : Nat} : id ∈ s.remove a ↔ id ∈ s ∧ id ≠ a := by
  unfold remove
  split
  · next h => simp [mem_iff_bit, Words.bit_unset (s.fits.index_lt h)]
  · next h =>
    refine (and_iff_left_of_imp ?_).symm
    rintro hid rfl
    exact h (lt_capacity hid)

theorem combineWith_answer (c : Combination) (s t : PackageSet) :
    (combineWith c s t).2 = s.check t := by
  unfold combineWith
  split
  · next h => exact h.symm
  · next h => exact h.symm

theorem combineWith_space (c : Combination) (s t : PackageSet) :
    (combineWith c s t).1.generation = s.generation ∧
      (combineWith c s t).1.capacity = s.capacity := by
  unfold combineWith
  split <;> exact ⟨rfl, rfl⟩

theorem combineWith_of_error {c : Combination} {e : UniverseMismatch} (h : s.check t = .error e) :
    (combineWith c s t).1 = s := by
  unfold combineWith
  split
  · next heq => cases h.symm.trans heq
  · rfl

theorem mem_combineWith {c : Combination} {id : Nat} (h : s.check t = .ok ()) :
    id ∈ (combineWith c s t).1 ↔ c.onBits (s.contains id) (t.contains id) = true := by
  have hlength : s.words.length = t.words.length := by
    rw [s.fits.length, t.fits.length, (check_eq_ok.mp h).2]
  rw [combineWith, contains_eq, contains_eq]
  split
  · rw [mem_iff_bit, Words.bit_zipWith c.bit_onWords c.onBits_false hlength]
  · next heq => cases h.symm.trans heq

theorem combine_eq (c : Combination) (s t : PackageSet) :
    combine c s t = (s.check t).map fun _ => (combineWith c s t).1 := by
  rw [combine, ← combineWith_answer c s t]
  obtain ⟨out, answer⟩ := combineWith c s t
  cases answer <;> rfl

@[simp] theorem insert_capacity (s : PackageSet) (a : Nat) :
    (s.insert a).capacity = s.capacity := by
  unfold insert
  split <;> rfl

theorem insert_generation (s : PackageSet) (a : Nat) : (s.insert a).generation = s.generation := by
  unfold insert
  split <;> rfl

theorem remove_capacity (s : PackageSet) (a : Nat) : (s.remove a).capacity = s.capacity := by
  unfold remove
  split <;> rfl

theorem remove_generation (s : PackageSet) (a : Nat) : (s.remove a).generation = s.generation := by
  unfold remove
  split <;> rfl

theorem mem_foldl_insert (ids : List Nat) (s : PackageSet) (id : Nat) :
    id ∈ ids.foldl insert s ↔ id ∈ s ∨ id ∈ ids ∧ id < s.capacity := by
  induction ids generalizing s with
  | nil => simp
  | cons a ids ih =>
    rw [List.foldl_cons, ih, mem_insert, insert_capacity, List.mem_cons, or_assoc, or_and_right]
    refine or_congr_right (or_congr_left ⟨?_, ?_⟩)
    · rintro ⟨rfl, h⟩
      exact ⟨rfl, h⟩
    · rintro ⟨rfl, h⟩
      exact ⟨rfl, h⟩

@[simp] theorem mem_ofIds {g n id : Nat} {ids : List Nat} :
    id ∈ ofIds g n ids ↔ id ∈ ids ∧ id < n := by
  rw [ofIds, mem_foldl_insert]
  exact or_iff_right (not_mem_empty g n id)

theorem mem_foldl_remove (ids : List Nat) (s : PackageSet) (id : Nat) :
    id ∈ ids.foldl remove s ↔ id ∈ s ∧ id ∉ ids := by
  induction ids generalizing s with
  | nil => simp
  | cons a ids ih => simp only [List.foldl_cons, ih, mem_remove, List.mem_cons, not_or, and_assoc]

theorem foldl_remove_generation (ids : List Nat) (s : PackageSet) :
    (ids.foldl remove s).generation = s.generation := by
  induction ids generalizing s with
  | nil => rfl
  | cons a ids ih => rw [List.foldl_cons, ih, remove_generation]

theorem foldl_remove_capacity (ids : List Nat) (s : PackageSet) :
    (ids.foldl remove s).capacity = s.capacity := by
  induction ids generalizing s with
  | nil => rfl
  | cons a ids ih => rw [List.foldl_cons, ih, remove_capacity]

private theorem mem_foldl_keep (p : Nat → Bool) (ids : List Nat) (s : PackageSet) (id : Nat) :
    id ∈ ids.foldl (fun out id => if p id then out else out.remove id) s ↔
      id ∈ s ∧ (id ∈ ids → p id = true) := by
  induction ids generalizing s with
  | nil => simp
  | cons a ids ih =>
    rw [List.foldl_cons, ih, List.mem_cons]
    by_cases hp : p a = true
    · rw [if_pos hp]
      constructor
      · rintro ⟨hid, hrest⟩
        exact ⟨hid, fun h => h.elim (fun heq => heq ▸ hp) hrest⟩
      · rintro ⟨hid, hall⟩
        exact ⟨hid, fun h => hall (.inr h)⟩
    · rw [if_neg hp, mem_remove]
      constructor
      · rintro ⟨⟨hid, hne⟩, hrest⟩
        exact ⟨hid, fun h => h.elim (fun heq => absurd heq hne) hrest⟩
      · rintro ⟨hid, hall⟩
        exact ⟨⟨hid, fun heq => hp (heq ▸ hall (.inl heq))⟩, fun h => hall (.inr h)⟩

@[simp] theorem mem_filter {p : Nat → Bool} {id : Nat} :
    id ∈ s.filter p ↔ id ∈ s ∧ p id = true := by
  rw [filter, mem_foldl_keep, mem_toList]
  constructor
  · rintro ⟨hid, hall⟩
    exact ⟨hid, hall hid⟩
  · rintro ⟨hid, hp⟩
    exact ⟨hid, fun _ => hp⟩

@[simp] theorem mem_complement {id : Nat} :
    id ∈ s.complement ↔ id < s.capacity ∧ id ∉ s := by
  have hlength : (s.words.map (~~~·)).length = Words.count s.capacity := by
    rw [List.length_map, s.fits.length]
  have hrow : id < s.capacity → id < 64 * s.words.length := by
    rw [s.fits.length, Words.count]
    omega
  rw [mem_iff_bit, mem_iff_bit, complement, Words.bit_clearTail hlength, Words.bit_map_not]
  simp only [Bool.and_eq_true, decide_eq_true_eq, Bool.not_eq_true', Bool.not_eq_true]
  exact ⟨fun h => ⟨h.2, h.1.2⟩, fun h => ⟨⟨hrow h.1, h.2⟩, h.1⟩⟩

end PackageSet

end Depsolve
