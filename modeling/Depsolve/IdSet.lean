/-!
# Finite sets of identifiers

A finite set of natural numbers is kept as the bits of one number, so equal sets
are equal values and membership is a bit test. Each operation has one membership lemma.
-/
namespace Depsolve

-- `2 ^ n` is the power of natural numbers itself, whatever other powers are in scope
attribute [local instance (high)] instPowNat

structure IdSet where
  bits : Nat
deriving DecidableEq

namespace IdSet

def empty : IdSet := ⟨0⟩

instance : EmptyCollection IdSet := ⟨empty⟩
instance : Inhabited IdSet := ⟨empty⟩

def contains (s : IdSet) (id : Nat) : Bool := s.bits.testBit id

instance : Membership Nat IdSet := ⟨fun s id => s.contains id = true⟩

instance (s : IdSet) (id : Nat) : Decidable (id ∈ s) :=
  inferInstanceAs (Decidable (s.contains id = true))

def insert (s : IdSet) (id : Nat) : IdSet := ⟨s.bits ||| 1 <<< id⟩

def union (s t : IdSet) : IdSet := ⟨s.bits ||| t.bits⟩

def inter (s t : IdSet) : IdSet := ⟨s.bits &&& t.bits⟩

def diff (s t : IdSet) : IdSet := ⟨s.bits ^^^ (s.bits &&& t.bits)⟩

def erase (s : IdSet) (id : Nat) : IdSet :=
  if s.contains id then s.diff ⟨1 <<< id⟩ else s

def below (n : Nat) : IdSet := ⟨2 ^ n - 1⟩

def isEmpty (s : IdSet) : Bool := s.bits == 0

/-- The places of the ones among the first `2 ^ level` bits, counted from `start`, in front of a
list. The bits are halved, and a half without ones is passed over. -/
def places : Nat → Nat → Nat → List Nat → List Nat
  | 0, start, bits, rest => if bits.testBit 0 then start :: rest else rest
  | level + 1, start, bits, rest =>
    if bits = 0 then rest
    else
      let half := 2 ^ level
      places level start (bits % 2 ^ half) (places level (start + half) (bits >>> half) rest)

def toList (s : IdSet) : List Nat := places (s.bits.log2.log2 + 1) 0 s.bits []

def ofList (ids : List Nat) : IdSet := ids.foldl insert empty

def size (s : IdSet) : Nat := s.toList.length

def filter (s : IdSet) (p : Nat → Bool) : IdSet := ofList (s.toList.filter p)

theorem mem_def {s : IdSet} {id : Nat} : id ∈ s ↔ s.bits.testBit id = true := Iff.rfl

theorem contains_iff_mem {s : IdSet} {id : Nat} : s.contains id = true ↔ id ∈ s := Iff.rfl

@[ext] theorem ext_mem {s t : IdSet} (h : ∀ id, id ∈ s ↔ id ∈ t) : s = t := by
  cases s; cases t
  congr 1
  exact Nat.eq_of_testBit_eq fun i => Bool.eq_iff_iff.2 (h i)

@[simp] theorem not_mem_empty (id : Nat) : id ∉ (∅ : IdSet) := by
  show ¬ (0 : Nat).testBit id = true
  simp

@[simp] theorem mem_insert {s : IdSet} {a id : Nat} : id ∈ s.insert a ↔ id ∈ s ∨ id = a := by
  simp only [mem_def, insert, Nat.testBit_or, Nat.one_shiftLeft, Nat.testBit_two_pow,
    Bool.or_eq_true, decide_eq_true_eq]
  exact or_congr Iff.rfl eq_comm

@[simp] theorem mem_union {s t : IdSet} {id : Nat} : id ∈ s.union t ↔ id ∈ s ∨ id ∈ t := by
  simp [mem_def, union, Nat.testBit_or]

@[simp] theorem mem_inter {s t : IdSet} {id : Nat} : id ∈ s.inter t ↔ id ∈ s ∧ id ∈ t := by
  simp [mem_def, inter, Nat.testBit_and]

@[simp] theorem mem_diff {s t : IdSet} {id : Nat} : id ∈ s.diff t ↔ id ∈ s ∧ id ∉ t := by
  simp only [mem_def, diff, Nat.testBit_xor, Nat.testBit_and]
  cases s.bits.testBit id <;> cases t.bits.testBit id <;> decide

@[simp] theorem mem_erase {s : IdSet} {a id : Nat} : id ∈ s.erase a ↔ id ∈ s ∧ id ≠ a := by
  rw [erase]
  split
  · rw [mem_diff]
    simp only [mem_def, Nat.one_shiftLeft, Nat.testBit_two_pow, decide_eq_true_eq]
    exact and_congr Iff.rfl (not_congr eq_comm)
  · next h => exact ⟨fun hid => ⟨hid, fun e => h (e ▸ hid)⟩, And.left⟩

@[simp] theorem mem_below {n id : Nat} : id ∈ below n ↔ id < n := by
  simp [mem_def, below, Nat.testBit_two_pow_sub_one]

theorem places_eq (level start bits : Nat) (rest : List Nat) :
    places level start bits rest =
      ((List.range (2 ^ level)).filter bits.testBit).map (start + ·) ++ rest := by
  induction level generalizing start bits rest with
  | zero => by_cases h : bits.testBit 0 <;> simp [places, h]
  | succ level ih =>
    rw [places]
    split
    · next h => simp [h]
    · rw [ih, ih, Nat.pow_succ, Nat.mul_two, List.range_add, List.filter_append, List.map_append,
        List.append_assoc, List.filter_map, List.map_map]
      congr 1
      · congr 1
        refine List.filter_congr fun i hi => ?_
        simp [Nat.testBit_mod_two_pow, List.mem_range.1 hi]
      · congr 1
        rw [List.filter_congr fun i _ => Nat.testBit_shiftRight bits]
        exact List.map_congr_left fun i _ => Nat.add_assoc ..

theorem toList_eq (s : IdSet) :
    s.toList = (List.range (2 ^ (s.bits.log2.log2 + 1))).filter s.contains := by
  rw [toList, places_eq, List.append_nil]
  simp only [Nat.zero_add, List.map_id']
  rfl

@[simp] theorem mem_toList {s : IdSet} {id : Nat} : id ∈ s.toList ↔ id ∈ s := by
  simp only [toList_eq, List.mem_filter, List.mem_range, contains_iff_mem]
  refine ⟨And.right, fun h => ⟨?_, h⟩⟩
  have hle : 2 ^ id ≤ s.bits := Nat.ge_two_pow_of_testBit h
  have hne : s.bits ≠ 0 := by
    have := Nat.two_pow_pos id
    omega
  exact Nat.lt_of_le_of_lt ((Nat.le_log2 hne).2 hle) Nat.lt_log2_self

theorem toList_pairwise (s : IdSet) : s.toList.Pairwise (· < ·) :=
  toList_eq s ▸ List.pairwise_lt_range.filter _

theorem toList_nodup (s : IdSet) : s.toList.Nodup :=
  (toList_pairwise s).imp Nat.ne_of_lt

theorem toList_erase_perm {s : IdSet} {id : Nat} (h : id ∈ s) :
    (id :: (s.erase id).toList).Perm s.toList := by
  refine (List.perm_ext_iff_of_nodup (List.nodup_cons.mpr ⟨by simp, toList_nodup _⟩)
    (toList_nodup s)).mpr fun x => ?_
  simp only [List.mem_cons, mem_toList, mem_erase]
  constructor
  · rintro (rfl | hx)
    · exact h
    · exact hx.1
  · intro hx
    exact (Decidable.em (x = id)).imp_right fun hne => ⟨hx, hne⟩

theorem size_erase {s : IdSet} {id : Nat} (h : id ∈ s) : (s.erase id).size + 1 = s.size :=
  (toList_erase_perm h).length_eq

theorem mem_foldl_insert (ids : List Nat) (s : IdSet) (id : Nat) :
    id ∈ ids.foldl insert s ↔ id ∈ s ∨ id ∈ ids := by
  induction ids generalizing s with
  | nil => simp
  | cons a l ih => simp [ih, or_assoc]

theorem mem_foldl_erase (ids : List Nat) (s : IdSet) (id : Nat) :
    id ∈ ids.foldl erase s ↔ id ∈ s ∧ id ∉ ids := by
  induction ids generalizing s with
  | nil => simp
  | cons a ids ih => simp only [List.foldl_cons, ih, mem_erase, List.mem_cons, not_or, and_assoc]

@[simp] theorem mem_ofList {ids : List Nat} {id : Nat} : id ∈ ofList ids ↔ id ∈ ids := by
  rw [ofList, mem_foldl_insert]
  exact ⟨fun h => h.resolve_left (not_mem_empty id), .inr⟩

@[simp] theorem ofList_toList (s : IdSet) : ofList s.toList = s := by
  ext id
  rw [mem_ofList, mem_toList]

theorem erase_ofList_cons {ids : List Nat} {id : Nat} (h : id ∉ ids) :
    (ofList (id :: ids)).erase id = ofList ids := by
  ext a
  rw [mem_erase, mem_ofList, mem_ofList, List.mem_cons]
  constructor
  · intro ha
    exact ha.1.resolve_left ha.2
  · intro ha
    exact ⟨.inr ha, fun heq => h (heq ▸ ha)⟩

@[simp] theorem mem_filter {s : IdSet} {p : Nat → Bool} {id : Nat} :
    id ∈ s.filter p ↔ id ∈ s ∧ p id = true := by
  simp [filter]

theorem isEmpty_iff {s : IdSet} : s.isEmpty = true ↔ ∀ id, id ∉ s := by
  constructor
  · intro h id hid
    have hz : s.bits = 0 := by simpa [isEmpty] using h
    simp [mem_def, hz] at hid
  · intro h
    have : s = ∅ := ext_mem fun id => iff_of_false (h id) (not_mem_empty id)
    subst this
    rfl

end IdSet

end Depsolve
