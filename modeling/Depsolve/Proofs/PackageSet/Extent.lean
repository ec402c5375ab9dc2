import Depsolve.PackageSet.Command
import Mathlib.Data.Finset.Card
import Mathlib.Data.Finset.Range
/-!
# The sets that package sets stand for

A package set stands for a finite set of numbers below its capacity. Commands act on package
sets as the operations of sets act on what they stand for, so after any commands each package
set shows the set that the same operations give.
-/
namespace Depsolve

namespace PackageSet

/-- A set of numbers below a capacity, of one generation. -/
@[ext] structure Extent where
  generation : Nat
  capacity : Nat
  members : Finset Nat

def Combination.onMembers : Combination → Finset Nat → Finset Nat → Finset Nat
  | .union, a, b => a ∪ b
  | .inter, a, b => a ∩ b
  | .diff, a, b => a \ b

namespace Extent

def insert (e : Extent) (id : Nat) : Extent :=
  { e with members := e.members ∪ ({id} ∩ Finset.range e.capacity) }

def remove (e : Extent) (id : Nat) : Extent := { e with members := e.members \ {id} }

def complement (e : Extent) : Extent :=
  { e with members := Finset.range e.capacity \ e.members }

def combine (c : Combination) (e f : Extent) : Except UniverseMismatch Extent :=
  if e.generation = f.generation ∧ e.capacity = f.capacity then
    .ok { e with members := c.onMembers e.members f.members }
  else .error ⟨e.generation, f.generation⟩

variable {κ : Type} [DecidableEq κ]

def perform (extents : κ → Extent) : Command κ → (κ → Extent) × Except UniverseMismatch Unit
  | .empty target generation capacity =>
    (Function.update extents target ⟨generation, capacity, ∅⟩, .ok ())
  | .full target generation capacity =>
    (Function.update extents target ⟨generation, capacity, Finset.range capacity⟩, .ok ())
  | .ofIds target generation capacity ids =>
    (Function.update extents target ⟨generation, capacity, ids.toFinset ∩ Finset.range capacity⟩,
      .ok ())
  | .insert target id => (Function.update extents target ((extents target).insert id), .ok ())
  | .remove target id => (Function.update extents target ((extents target).remove id), .ok ())
  | .complement a target => (Function.update extents target (extents a).complement, .ok ())
  | .combine c a b target =>
    match combine c (extents a) (extents b) with
    | .ok e => (Function.update extents target e, .ok ())
    | .error e => (extents, .error e)
  | .combineWith c target b =>
    match combine c (extents target) (extents b) with
    | .ok e => (Function.update extents target e, .ok ())
    | .error e => (extents, .error e)

def run (extents : κ → Extent) (commands : List (Command κ)) : κ → Extent :=
  commands.foldl (fun extents command => (perform extents command).1) extents

end Extent

def extent (s : PackageSet) : Extent := ⟨s.generation, s.capacity, s.toList.toFinset⟩

/-- A package set shows a set: it has no more words than the capacity needs and ones exactly at
the members, and all that can be asked of it is answered as for the set. -/
structure Represents (s : PackageSet) (e : Extent) : Prop where
  generation : s.generation = e.generation
  capacity : s.capacity = e.capacity
  bounded : e.members ⊆ Finset.range e.capacity
  length_words : e.capacity ≤ 64 * s.words.length ∧ 64 * s.words.length < e.capacity + 64
  bit : ∀ p, Words.bit s.words p = true ↔ p ∈ e.members
  contains : ∀ id, s.contains id = true ↔ id ∈ e.members
  ascending : s.toList.Pairwise (· < ·)
  mem_toList : ∀ id, id ∈ s.toList ↔ id ∈ e.members
  size : s.size = e.members.card
  isEmpty : s.isEmpty = true ↔ e.members = ∅

variable {s t : PackageSet}

theorem mem_extent {id : Nat} : id ∈ s.extent.members ↔ id ∈ s := by
  simp [extent]

theorem represents_extent (s : PackageSet) : s.Represents s.extent where
  generation := rfl
  capacity := rfl
  bounded := by
    intro id hid
    exact Finset.mem_range.mpr (lt_capacity (mem_extent.mp hid))
  length_words := by
    have hlength : s.words.length = (s.capacity + 63) / 64 := s.fits.length
    simp only [extent]
    omega
  bit := fun p => mem_iff_bit.symm.trans mem_extent.symm
  contains := fun id => mem_extent.symm
  ascending := toList_pairwise s
  mem_toList := fun id => List.mem_toFinset.symm
  size := by rw [← length_toList, extent, List.toFinset_card_of_nodup (toList_nodup s)]
  isEmpty := by
    rw [isEmpty_iff, Finset.eq_empty_iff_forall_notMem]
    simp only [mem_extent]

theorem extent_eq {e : Extent} (hgeneration : s.generation = e.generation)
    (hcapacity : s.capacity = e.capacity) (hmem : ∀ id, id ∈ s ↔ id ∈ e.members) :
    s.extent = e := by
  apply Extent.ext hgeneration hcapacity
  ext id
  rw [mem_extent, hmem]

theorem extent_inj : s.extent = t.extent ↔ s = t := by
  constructor
  · intro h
    refine ext_mem (congrArg Extent.generation h) (congrArg Extent.capacity h) fun id => ?_
    rw [← mem_extent, ← mem_extent, h]
  · intro h
    rw [h]

/-! ### One equation for each operation -/

theorem extent_empty (generation capacity : Nat) :
    (empty generation capacity).extent = ⟨generation, capacity, ∅⟩ := by
  apply extent_eq rfl rfl
  simp

theorem extent_full (generation capacity : Nat) :
    (full generation capacity).extent = ⟨generation, capacity, Finset.range capacity⟩ := by
  apply extent_eq rfl rfl
  simp

theorem foldl_insert_space (ids : List Nat) (s : PackageSet) :
    (ids.foldl insert s).generation = s.generation ∧
      (ids.foldl insert s).capacity = s.capacity := by
  induction ids generalizing s with
  | nil => exact ⟨rfl, rfl⟩
  | cons id ids ih =>
    rw [List.foldl_cons, (ih _).1, (ih _).2]
    exact ⟨insert_generation s id, insert_capacity s id⟩

theorem extent_ofIds (generation capacity : Nat) (ids : List Nat) :
    (ofIds generation capacity ids).extent =
      ⟨generation, capacity, ids.toFinset ∩ Finset.range capacity⟩ := by
  have hspace := foldl_insert_space ids (empty generation capacity)
  apply extent_eq hspace.1 hspace.2
  simp

theorem extent_insert (s : PackageSet) (id : Nat) : (s.insert id).extent = s.extent.insert id := by
  apply extent_eq (insert_generation s id) (insert_capacity s id)
  intro x
  have hcapacity : s.extent.capacity = s.capacity := rfl
  simp only [mem_insert, Extent.insert, Finset.mem_union, Finset.mem_inter, Finset.mem_singleton,
    Finset.mem_range, mem_extent, hcapacity]
  refine or_congr_right (and_congr_right ?_)
  rintro rfl
  rfl

theorem extent_remove (s : PackageSet) (id : Nat) : (s.remove id).extent = s.extent.remove id := by
  apply extent_eq (remove_generation s id) (remove_capacity s id)
  simp [Extent.remove, mem_extent]

theorem extent_complement (s : PackageSet) : s.complement.extent = s.extent.complement := by
  apply extent_eq rfl rfl
  have hcapacity : s.extent.capacity = s.capacity := rfl
  simp [Extent.complement, mem_extent, hcapacity]

theorem Combination.mem_onMembers {c : Combination} {id : Nat} :
    id ∈ c.onMembers s.extent.members t.extent.members ↔
      c.onBits (s.contains id) (t.contains id) = true := by
  have hs : id ∈ s.extent.members ↔ s.contains id = true := mem_extent
  have ht : id ∈ t.extent.members ↔ t.contains id = true := mem_extent
  cases c <;> simp [onMembers, onBits, hs, ht]

theorem extent_combineWith (c : Combination) (s t : PackageSet) :
    Extent.combine c s.extent t.extent =
      (s.check t).map fun _ => (combineWith c s t).1.extent := by
  by_cases h : s.generation = t.generation ∧ s.capacity = t.capacity
  · have hcheck := check_eq_ok.mpr h
    obtain ⟨hgeneration, hcapacity⟩ := combineWith_space c s t
    have hextent : Extent.combine c s.extent t.extent =
        .ok { s.extent with members := c.onMembers s.extent.members t.extent.members } := if_pos h
    rw [hextent, hcheck]
    refine congrArg Except.ok (extent_eq hgeneration hcapacity fun id => ?_).symm
    rw [mem_combineWith hcheck, Combination.mem_onMembers]
  · have hextent : Extent.combine c s.extent t.extent = .error ⟨s.generation, t.generation⟩ :=
      if_neg h
    rw [hextent, check, if_neg h]
    rfl

theorem extent_combine (c : Combination) (s t : PackageSet) :
    (combine c s t).map extent = Extent.combine c s.extent t.extent := by
  rw [extent_combineWith, combine_eq]
  cases s.check t <;> rfl

theorem check_fails_iff (s t : PackageSet) :
    (∃ e, s.check t = .error e) ↔ s.generation ≠ t.generation ∨ s.capacity ≠ t.capacity := by
  rw [← not_and_or, ← check_eq_ok]
  cases s.check t <;> simp

theorem combine_fails_iff (c : Combination) (s t : PackageSet) :
    (∃ e, combine c s t = .error e) ↔ s.generation ≠ t.generation ∨ s.capacity ≠ t.capacity := by
  rw [← check_fails_iff, combine_eq]
  cases s.check t <;> simp [Except.map]

theorem combineWith_fails_iff (c : Combination) (s t : PackageSet) :
    (∃ e, (combineWith c s t).2 = .error e) ↔
      s.generation ≠ t.generation ∨ s.capacity ≠ t.capacity := by
  rw [combineWith_answer, check_fails_iff]

/-! ### Commands -/

namespace Shelf

variable {κ : Type} [DecidableEq κ]

theorem extent_put (shelf : Shelf κ) (target : κ) (s : PackageSet) :
    (fun name => (shelf.put target s name).extent) =
      Function.update (fun name => (shelf name).extent) target s.extent := by
  funext name
  rw [put, Function.update_apply, apply_ite extent]

/-- A command acts on what the sets stand for, with the same answer. -/
theorem perform_extent (shelf : Shelf κ) (command : Command κ) :
    Extent.perform (fun name => (shelf name).extent) command =
      (fun name => ((shelf.perform command).1 name).extent, (shelf.perform command).2) := by
  cases command with
  | empty target generation capacity => simp [perform, Extent.perform, extent_put, extent_empty]
  | full target generation capacity => simp [perform, Extent.perform, extent_put, extent_full]
  | ofIds target generation capacity ids => simp [perform, Extent.perform, extent_put, extent_ofIds]
  | insert target id => simp [perform, Extent.perform, extent_put, extent_insert]
  | remove target id => simp [perform, Extent.perform, extent_put, extent_remove]
  | complement a target => simp [perform, Extent.perform, extent_put, extent_complement]
  | combine c a b target =>
    rw [perform, Extent.perform, ← extent_combine]
    cases PackageSet.combine c (shelf a) (shelf b) with
    | ok s => simp [Except.map, extent_put]
    | error e => rfl
  | combineWith c target b =>
    simp only [perform, Extent.perform, extent_combineWith, combineWith_answer, extent_put]
    cases hcheck : (shelf target).check (shelf b) with
    | ok _ => rfl
    | error e => simp [Except.map, combineWith_of_error hcheck]

theorem run_extent (shelf : Shelf κ) (commands : List (Command κ)) :
    Extent.run (fun name => (shelf name).extent) commands =
      fun name => (shelf.run commands name).extent := by
  induction commands generalizing shelf with
  | nil => rfl
  | cons command rest ih =>
    have hstep : Extent.run (fun name => (shelf name).extent) (command :: rest) =
        Extent.run (Extent.perform (fun name => (shelf name).extent) command).1 rest := rfl
    rw [hstep, perform_extent, ih]
    rfl

theorem perform_of_error {shelf : Shelf κ} {command : Command κ} {e : UniverseMismatch}
    (h : (shelf.perform command).2 = .error e) : (shelf.perform command).1 = shelf := by
  cases command with
  | combine c a b target =>
    rw [perform] at h ⊢
    cases hcombine : PackageSet.combine c (shelf a) (shelf b) with
    | ok s => simp [hcombine] at h
    | error e' => rfl
  | combineWith c target b =>
    simp only [perform, combineWith_answer] at h ⊢
    rw [combineWith_of_error h]
    funext name
    simp only [put]
    split
    · next hname => rw [hname]
    · rfl
  | empty | full | ofIds | insert | remove | complement => cases h

/-- After any commands every package set shows what the operations of sets give. -/
theorem run_represents (commands : List (Command κ)) :
    let shelf := run (fun _ : κ => PackageSet.empty 0 0) commands
    let extents := Extent.run (fun _ : κ => ⟨0, 0, ∅⟩) commands
    (∀ name, (shelf name).Represents (extents name)) ∧
    (∀ a b, shelf a = shelf b ↔ (extents a).generation = (extents b).generation ∧
      (extents a).capacity = (extents b).capacity ∧ (extents a).members = (extents b).members) ∧
    (∀ command, (shelf.perform command).2 = (Extent.perform extents command).2) ∧
    (∀ c a b, ((∃ e, PackageSet.combine c (shelf a) (shelf b) = .error e) ↔
        (extents a).generation ≠ (extents b).generation ∨
          (extents a).capacity ≠ (extents b).capacity) ∧
      ((∃ e, (PackageSet.combineWith c (shelf a) (shelf b)).2 = .error e) ↔
        (extents a).generation ≠ (extents b).generation ∨
          (extents a).capacity ≠ (extents b).capacity)) ∧
    ∀ command e, (shelf.perform command).2 = .error e → (shelf.perform command).1 = shelf := by
  intro shelf extents
  have hextents : extents = fun name => (shelf name).extent := by
    rw [← run_extent]
    simp only [extent_empty]
    rfl
  rw [hextents]
  refine ⟨fun name => represents_extent _, fun a b => ?_, fun command => ?_, fun c a b => ?_,
    fun command e => perform_of_error⟩
  · rw [← extent_inj, Extent.ext_iff]
  · rw [perform_extent]
  · exact ⟨combine_fails_iff c _ _, combineWith_fails_iff c _ _⟩

/-- Sets of two generations, one of them with its complement. -/
def twoGenerations : List (Command Nat) :=
  [.ofIds 0 1 130 [64, 5, 130, 1, 5], .full 1 2 130, .complement 0 2]

theorem twoGenerations_represents :
    let shelf := run (fun _ => PackageSet.empty 0 0) twoGenerations
    (shelf 0).toList = [1, 5, 64] ∧ (shelf 2).size = 127 ∧
      (shelf.perform (.combineWith .union 0 1)).2 = .error ⟨1, 2⟩ ∧
      (shelf.perform (.combineWith .union 0 1)).1 = shelf := by
  intro shelf
  have hfails : (shelf.perform (.combineWith .union 0 1)).2 = .error ⟨1, 2⟩ := by
    decide +kernel
  obtain ⟨-, -, -, -, hkeeps⟩ := run_represents twoGenerations
  exact ⟨by decide +kernel, by decide +kernel, hfails, hkeeps _ _ hfails⟩

end Shelf

end PackageSet

end Depsolve
