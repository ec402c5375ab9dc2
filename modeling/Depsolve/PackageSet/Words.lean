/-!
# Words of bits

A list of 64-bit words read as one row of bits: place 0 is the lowest bit of the first word.
Each operation on words has one lemma that says which bits it leaves.
-/
namespace Depsolve

-- `2 ^ n` is the power of natural numbers itself, whatever other powers are in scope
attribute [local instance (high)] instPowNat

namespace Word

def bit (w : UInt64) (place : Nat) : Bool := w.toBitVec.getLsbD place

def single (place : Nat) : UInt64 := 1 <<< UInt64.ofNat place

def low (n : Nat) : UInt64 := single n - 1

def countOnes (w : UInt64) : Nat := w.toBitVec.cpop.toNat

/-- The place of the lowest one. -/
def trailingZeros (w : UInt64) : Nat := w.toBitVec.ctz.toNat

def dropLowest (w : UInt64) : UInt64 := w &&& (w - 1)

theorem bit_eq_testBit (w : UInt64) (i : Nat) : bit w i = w.toNat.testBit i :=
  (BitVec.testBit_toNat w.toBitVec).symm

theorem bit_of_ge (w : UInt64) {i : Nat} (h : 64 ≤ i) : bit w i = false :=
  BitVec.getLsbD_of_ge _ _ h

theorem ext {v w : UInt64} (h : ∀ i < 64, bit v i = bit w i) : v = w :=
  UInt64.eq_of_toBitVec_eq (BitVec.eq_of_getLsbD_eq h)

theorem eq_zero_iff {w : UInt64} : w = 0 ↔ ∀ i, bit w i = false := by
  constructor
  · rintro rfl i
    exact BitVec.getLsbD_zero
  · intro h
    exact ext fun i _ => (h i).trans BitVec.getLsbD_zero.symm

@[simp] theorem bit_zero (i : Nat) : bit 0 i = false := BitVec.getLsbD_zero

@[simp] theorem bit_or (v w : UInt64) (i : Nat) : bit (v ||| w) i = (bit v i || bit w i) := by
  rw [bit, UInt64.toBitVec_or, BitVec.getLsbD_or, bit, bit]

@[simp] theorem bit_and (v w : UInt64) (i : Nat) : bit (v &&& w) i = (bit v i && bit w i) := by
  rw [bit, UInt64.toBitVec_and, BitVec.getLsbD_and, bit, bit]

@[simp] theorem bit_not (w : UInt64) (i : Nat) : bit (~~~w) i = (decide (i < 64) && !bit w i) := by
  rw [bit, UInt64.toBitVec_not, BitVec.getLsbD_not, bit]

theorem toNat_single {place : Nat} (h : place < 64) : (single place).toNat = 2 ^ place := by
  have hplace : (UInt64.ofNat place).toNat % 64 = place := by
    simp only [UInt64.toNat_ofNat']
    omega
  rw [single, UInt64.toNat_shiftLeft, hplace, UInt64.toNat_one, Nat.one_shiftLeft]
  exact Nat.mod_eq_of_lt (Nat.pow_lt_pow_right (by decide) h)

theorem bit_single {place : Nat} (h : place < 64) (i : Nat) :
    bit (single place) i = decide (place = i) := by
  rw [bit_eq_testBit, toNat_single h, Nat.testBit_two_pow]

theorem bit_low {n : Nat} (h : n < 64) (i : Nat) : bit (low n) i = decide (i < n) := by
  have hone : (1 : UInt64) ≤ single n := by
    rw [UInt64.le_iff_toNat_le, toNat_single h]
    exact Nat.one_le_two_pow
  rw [bit_eq_testBit, low, UInt64.toNat_sub_of_le _ _ hone, toNat_single h, UInt64.toNat_one,
    Nat.testBit_two_pow_sub_one]

theorem and_single_ne_zero {w : UInt64} {place : Nat} (h : place < 64) :
    (w &&& single place != 0) = bit w place := by
  rw [Bool.eq_iff_iff, bne_iff_ne, ne_eq, eq_zero_iff]
  simp only [bit_and, bit_single h]
  constructor
  · intro hne
    by_cases hbit : bit w place = true
    · exact hbit
    · refine absurd (fun i => ?_) hne
      by_cases hi : place = i
      · simp [← hi, hbit]
      · simp [hi]
  · intro hbit hall
    simpa [hbit] using hall place

theorem bit_trailingZeros {w : UInt64} (h : w ≠ 0) : bit w (trailingZeros w) = true :=
  BitVec.getLsbD_true_ctz_of_ne_zero fun h0 => h (UInt64.eq_of_toBitVec_eq h0)

theorem bit_of_lt_trailingZeros {w : UInt64} {i : Nat} (h : i < trailingZeros w) :
    bit w i = false := BitVec.getLsbD_false_of_lt_ctz h

theorem trailingZeros_lt {w : UInt64} (h : w ≠ 0) : trailingZeros w < 64 := by
  refine Nat.lt_of_not_le fun hge => ?_
  simpa [bit_of_ge w hge] using bit_trailingZeros h

theorem one_le {w : UInt64} (h : w ≠ 0) : 1 ≤ w := by
  rw [UInt64.le_iff_toNat_le, UInt64.toNat_one]
  exact Nat.one_le_iff_ne_zero.mpr fun h0 => h (UInt64.toNat_inj.mp h0)

/-- One less than a number has the bits of the number above its lowest one, and not that one. -/
private theorem testBit_pred {n k i : Nat} (hone : n.testBit k = true)
    (hbelow : ∀ j < k, n.testBit j = false) (hi : k ≤ i) :
    (n - 1).testBit i = (n.testBit i && decide (i ≠ k)) := by
  have hmod : n % 2 ^ (k + 1) = 2 ^ k := by
    apply Nat.eq_of_testBit_eq
    intro j
    rw [Nat.testBit_mod_two_pow, Nat.testBit_two_pow]
    rcases Nat.lt_trichotomy j k with hj | rfl | hj
    · simp [hbelow j hj, Nat.ne_of_gt hj]
    · simp [hone]
    · simp [Nat.ne_of_lt hj, Nat.not_lt.mpr (Nat.succ_le_of_lt hj)]
  have hpos := Nat.two_pow_pos k
  have hlt : 2 ^ k < 2 ^ (k + 1) := Nat.pow_lt_pow_right (by decide) (Nat.lt_succ_self k)
  have hsplit : 2 ^ (k + 1) * (n / 2 ^ (k + 1)) + 2 ^ k = n := hmod ▸ Nat.div_add_mod n _
  have hpred : n - 1 = 2 ^ (k + 1) * (n / 2 ^ (k + 1)) + (2 ^ k - 1) := by omega
  have hbit := Nat.testBit_two_pow_mul_add (n / 2 ^ (k + 1)) hlt i
  rw [hsplit] at hbit
  rw [hbit, hpred, Nat.testBit_two_pow_mul_add _ (by omega)]
  by_cases heq : i = k
  · simp [heq, Nat.testBit_two_pow_sub_one]
  · have hnot : ¬ i < k + 1 := by omega
    simp [heq, hnot]

theorem bit_dropLowest {w : UInt64} (h : w ≠ 0) (i : Nat) :
    bit (dropLowest w) i = (bit w i && decide (i ≠ trailingZeros w)) := by
  rw [dropLowest, bit_and]
  by_cases hi : i < trailingZeros w
  · simp [bit_of_lt_trailingZeros hi]
  · have hpred := testBit_pred ((bit_eq_testBit w _).symm.trans (bit_trailingZeros h))
      (fun j hj => (bit_eq_testBit w j).symm.trans (bit_of_lt_trailingZeros hj))
      (Nat.le_of_not_lt hi)
    rw [bit_eq_testBit (w - 1), UInt64.toNat_sub_of_le _ _ (one_le h), UInt64.toNat_one, hpred,
      ← bit_eq_testBit, ← Bool.and_assoc, Bool.and_self]

theorem toNat_dropLowest_lt {w : UInt64} (h : w ≠ 0) : (dropLowest w).toNat < w.toNat := by
  have hpos : 1 ≤ w.toNat := UInt64.le_iff_toNat_le.mp (one_le h)
  have hle : (dropLowest w).toNat ≤ (w - 1).toNat := by
    rw [dropLowest, UInt64.toNat_and]
    exact Nat.and_le_right
  rw [UInt64.toNat_sub_of_le _ _ (one_le h), UInt64.toNat_one] at hle
  omega

theorem countOnes_eq_countP (w : UInt64) : countOnes w = (List.range 64).countP (bit w) := by
  have hrec (n : Nat) : w.toBitVec.cpopNatRec n 0 = (List.range n).countP (bit w) := by
    induction n with
    | zero => rfl
    | succ n ih =>
      rw [BitVec.cpopNatRec_succ, BitVec.cpopNatRec_eq, ih, List.range_succ, List.countP_append]
      cases hbit : w.toBitVec.getLsbD n <;> simp [bit, hbit]
  rw [countOnes, BitVec.toNat_cpop, hrec]

end Word

namespace Words

/-- The number of words that `capacity` bits need. -/
def count (capacity : Nat) : Nat := (capacity + 63) / 64

def bit (ws : List UInt64) (place : Nat) : Bool := Word.bit (ws.getD (place / 64) 0) (place % 64)

def set (ws : List UInt64) (place : Nat) : List UInt64 :=
  ws.modify (place / 64) (· ||| Word.single (place % 64))

def unset (ws : List UInt64) (place : Nat) : List UInt64 :=
  ws.modify (place / 64) (· &&& ~~~Word.single (place % 64))

/-- Without the ones of the last word from place `capacity` on. -/
def clearTail (capacity : Nat) (ws : List UInt64) : List UInt64 :=
  let used := capacity % 64
  if used = 0 then ws else ws.modify (ws.length - 1) (· &&& Word.low used)

def countOnes (ws : List UInt64) : Nat := ws.foldr (Word.countOnes · + ·) 0

variable {ws vs : List UInt64} {capacity place p : Nat}

theorem div_lt_count (h : place < capacity) : place / 64 < count capacity := by
  rw [count]
  omega

@[simp] theorem bit_nil (p : Nat) : bit [] p = false := Word.bit_zero _

theorem bit_cons (w : UInt64) (ws : List UInt64) (p : Nat) :
    bit (w :: ws) p = if p < 64 then Word.bit w p else bit ws (p - 64) := by
  split
  · next h => rw [bit, Nat.div_eq_of_lt h, Nat.mod_eq_of_lt h, List.getD_cons_zero]
  · next h =>
    have hdiv : p / 64 = (p - 64) / 64 + 1 := by omega
    have hmod : p % 64 = (p - 64) % 64 := by omega
    rw [bit, hdiv, hmod, List.getD_cons_succ, bit]

theorem bit_cons_add (w : UInt64) (ws : List UInt64) (p : Nat) :
    bit (w :: ws) (p + 64) = bit ws p := by
  rw [bit_cons, if_neg (by omega), Nat.add_sub_cancel]

theorem bit_of_ge (h : 64 * ws.length ≤ p) : bit ws p = false := by
  have hge : ws.length ≤ p / 64 := by omega
  rw [bit, List.getD_eq_getElem?_getD, List.getElem?_eq_none hge]
  exact Word.bit_zero _

theorem ext (hlength : vs.length = ws.length) (h : ∀ p, bit vs p = bit ws p) : vs = ws := by
  induction vs generalizing ws with
  | nil => exact (List.length_eq_zero_iff.mp hlength.symm).symm
  | cons v vs ih =>
    cases ws with
    | nil => cases hlength
    | cons w ws =>
      congr 1
      · refine Word.ext fun i hi => ?_
        simpa [bit_cons, hi] using h i
      · refine ih (Nat.succ.inj hlength) fun p => ?_
        simpa only [bit_cons_add] using h (p + 64)

theorem bit_replicate (n : Nat) (w : UInt64) (p : Nat) :
    bit (List.replicate n w) p = (decide (p < 64 * n) && Word.bit w (p % 64)) := by
  by_cases h : p < 64 * n
  · have hdiv : p / 64 < n := by omega
    simp [bit, hdiv, h]
  · rw [bit_of_ge (by simpa using h)]
    simp [h]

theorem bit_modify (f : UInt64 → UInt64) (hplace : place < ws.length) (p : Nat) :
    bit (ws.modify place f) p =
      if p / 64 = place then Word.bit (f (ws.getD place 0)) (p % 64) else bit ws p := by
  simp only [bit, List.getD_eq_getElem?_getD, List.getElem?_modify, eq_comm (a := place)]
  split
  · next h => simp [h, hplace]
  · next h => simp

theorem bit_set (hplace : place / 64 < ws.length) (p : Nat) :
    bit (set ws place) p = (bit ws p || decide (p = place)) := by
  rw [set, bit_modify _ hplace]
  split
  · next h =>
    have hiff : place % 64 = p % 64 ↔ p = place := by omega
    rw [Word.bit_or, Word.bit_single (Nat.mod_lt _ (by decide)), bit, h, decide_eq_decide.mpr hiff]
  · next h =>
    have hne : p ≠ place := fun heq => h (heq ▸ rfl)
    simp [hne]

theorem bit_unset (hplace : place / 64 < ws.length) (p : Nat) :
    bit (unset ws place) p = (bit ws p && decide (p ≠ place)) := by
  rw [unset, bit_modify _ hplace]
  split
  · next h =>
    have hiff : place % 64 = p % 64 ↔ p = place := by omega
    have hlt : p % 64 < 64 := Nat.mod_lt _ (by decide)
    rw [Word.bit_and, Word.bit_not, Word.bit_single (Nat.mod_lt _ (by decide)), bit, h]
    simp [hlt, hiff]
  · next h =>
    have hne : p ≠ place := fun heq => h (heq ▸ rfl)
    simp [hne]

theorem bit_map_not (ws : List UInt64) (p : Nat) :
    bit (ws.map (~~~·)) p = (decide (p < 64 * ws.length) && !bit ws p) := by
  by_cases h : p < 64 * ws.length
  · have hdiv : p / 64 < ws.length := by omega
    have hmod : p % 64 < 64 := Nat.mod_lt _ (by decide)
    simp [bit, hdiv, h, hmod]
  · rw [bit_of_ge (by simpa using h)]
    simp [h]

/-- Words are combined as their bits are. -/
theorem bit_zipWith {f : UInt64 → UInt64 → UInt64} {g : Bool → Bool → Bool}
    (hf : ∀ v w, ∀ i < 64, Word.bit (f v w) i = g (Word.bit v i) (Word.bit w i))
    (hg : g false false = false) (hlength : vs.length = ws.length) (p : Nat) :
    bit (vs.zipWith f ws) p = g (bit vs p) (bit ws p) := by
  by_cases h : p < 64 * vs.length
  · have hdiv : p / 64 < vs.length := by omega
    have hmod : p % 64 < 64 := Nat.mod_lt _ (by decide)
    have hdiv' : p / 64 < ws.length := hlength ▸ hdiv
    simp only [bit, List.getD_eq_getElem?_getD, List.getElem?_zipWith,
      List.getElem?_eq_getElem hdiv, List.getElem?_eq_getElem hdiv', Option.getD_some,
      hf _ _ _ hmod]
  · have hvs : bit vs p = false := bit_of_ge (by omega)
    have hws : bit ws p = false := bit_of_ge (by omega)
    have hbeyond : 64 * (vs.zipWith f ws).length ≤ p := by
      rw [List.length_zipWith]
      omega
    rw [bit_of_ge hbeyond, hvs, hws, hg]

theorem bit_clearTail (hlength : ws.length = count capacity) (p : Nat) :
    bit (clearTail capacity ws) p = (bit ws p && decide (p < capacity)) := by
  simp only [clearTail]
  split
  · next hused =>
    by_cases h : p < capacity
    · simp [h]
    · have hge : 64 * ws.length ≤ p := by
        rw [hlength, count]
        omega
      simp [bit_of_ge hge]
  · next hused =>
    have hlast : ws.length - 1 = capacity / 64 ∧ ws.length - 1 < ws.length := by
      rw [hlength, count]
      omega
    rw [bit_modify _ hlast.2, hlast.1]
    split
    · next h =>
      have hiff : p % 64 < capacity % 64 ↔ p < capacity := by omega
      rw [Word.bit_and, Word.bit_low (Nat.mod_lt _ (by decide)), bit, h, decide_eq_decide.mpr hiff]
    · next h =>
      by_cases hlt : p < capacity
      · simp [hlt]
      · have hge : 64 * ws.length ≤ p := by omega
        simp [bit_of_ge hge]

theorem countOnes_eq_countP (ws : List UInt64) :
    countOnes ws = (List.range (64 * ws.length)).countP (bit ws) := by
  induction ws with
  | nil => rfl
  | cons w ws ih =>
    have hrow : 64 * (w :: ws).length = 64 + 64 * ws.length := by
      rw [List.length_cons]
      omega
    have hfirst : (List.range 64).countP (bit (w :: ws)) = (List.range 64).countP (Word.bit w) := by
      refine List.countP_congr fun p hp => ?_
      rw [bit_cons, if_pos (List.mem_range.mp hp)]
    have hrest : bit (w :: ws) ∘ (64 + ·) = bit ws := by
      funext p
      rw [Function.comp_apply, Nat.add_comm, bit_cons_add]
    rw [hrow, List.range_add, List.countP_append, List.countP_map, hfirst, hrest, ← ih,
      ← Word.countOnes_eq_countP]
    rfl

theorem all_eq_zero_iff (ws : List UInt64) : (ws.all (· == 0)) = true ↔ ∀ p, bit ws p = false := by
  induction ws with
  | nil => simp
  | cons w ws ih =>
    rw [List.all_cons, Bool.and_eq_true, beq_iff_eq, ih, Word.eq_zero_iff]
    constructor
    · rintro ⟨hw, hws⟩ p
      rw [bit_cons, hw, hws, ite_self]
    · intro h
      refine ⟨fun i => ?_, fun p => ?_⟩
      · by_cases hi : i < 64
        · simpa [bit_cons, hi] using h i
        · exact Word.bit_of_ge w (Nat.le_of_not_lt hi)
      · simpa only [bit_cons_add] using h (p + 64)

/-! ### Rows of a capacity -/

/-- As many words as the bits need, and no one from place `capacity` on. -/
structure Fits (ws : List UInt64) (capacity : Nat) : Prop where
  length : ws.length = count capacity
  tail : ∀ p, capacity ≤ p → bit ws p = false

namespace Fits

theorem index_lt (h : Fits ws capacity) (hplace : place < capacity) : place / 64 < ws.length :=
  h.length ▸ div_lt_count hplace

theorem replicate_zero (capacity : Nat) : Fits (List.replicate (count capacity) 0) capacity where
  length := List.length_replicate
  tail p _ := by simp [bit_replicate]

theorem clearTail (hlength : ws.length = count capacity) :
    Fits (Words.clearTail capacity ws) capacity where
  length := by
    simp only [Words.clearTail]
    split
    · exact hlength
    · rw [List.length_modify, hlength]
  tail p hp := by
    rw [bit_clearTail hlength, decide_eq_false (Nat.not_lt.mpr hp), Bool.and_false]

theorem set (h : Fits ws capacity) (hplace : place < capacity) :
    Fits (Words.set ws place) capacity where
  length := by rw [Words.set, List.length_modify, h.length]
  tail p hp := by
    rw [bit_set (h.index_lt hplace), h.tail p hp, decide_eq_false (by omega), Bool.or_false]

theorem unset (h : Fits ws capacity) (hplace : place < capacity) :
    Fits (Words.unset ws place) capacity where
  length := by rw [Words.unset, List.length_modify, h.length]
  tail p hp := by rw [bit_unset (h.index_lt hplace), h.tail p hp, Bool.false_and]

theorem zipWith {f : UInt64 → UInt64 → UInt64} {g : Bool → Bool → Bool}
    (hf : ∀ v w, ∀ i < 64, Word.bit (f v w) i = g (Word.bit v i) (Word.bit w i))
    (hg : g false false = false) (h : Fits vs capacity) (h' : Fits ws capacity) :
    Fits (vs.zipWith f ws) capacity where
  length := by rw [List.length_zipWith, h.length, h'.length, Nat.min_self]
  tail p hp := by
    rw [bit_zipWith hf hg (h.length.trans h'.length.symm), h.tail p hp, h'.tail p hp, hg]

end Fits

end Words

end Depsolve
