import Depsolve.PackageSet.Words
/-!
# Iteration over bits

The ones of a row of words in ascending order. The lowest one of the current word is given
and taken off, and a word without ones is left for the next.
-/
namespace Depsolve

namespace Words

structure Iter where
  wordIndex : Nat
  /-- The word at the index, without the ones that were given. -/
  current : UInt64
  /-- The words behind it. -/
  ahead : List UInt64

def iter (ws : List UInt64) : Iter := ⟨0, ws.headD 0, ws.tail⟩

namespace Iter

def nextFrom (wordIndex : Nat) (current : UInt64) (ahead : List UInt64) : Option (Nat × Iter) :=
  if current ≠ 0 then
    some (wordIndex * 64 + Word.trailingZeros current,
      ⟨wordIndex, Word.dropLowest current, ahead⟩)
  else
    match ahead with
    | [] => none
    | word :: ahead => nextFrom (wordIndex + 1) word ahead

/-- The lowest one that is left, and the iterator behind it. -/
def next (it : Iter) : Option (Nat × Iter) := nextFrom it.wordIndex it.current it.ahead

/-- Each item makes this smaller. -/
def weight (it : Iter) : Nat := it.current.toNat + it.ahead.foldr (·.toNat + ·) 0

/-- A place with a one that was not given yet. -/
def Due (it : Iter) (p : Nat) : Prop :=
  it.wordIndex * 64 ≤ p ∧ bit (it.current :: it.ahead) (p - it.wordIndex * 64) = true

theorem due_iter {ws : List UInt64} {p : Nat} : (iter ws).Due p ↔ bit ws p = true := by
  cases ws with
  | nil => simp [Due, iter, bit_cons]
  | cons w ws => simp [Due, iter]

variable {it rest : Iter} {id : Nat}

/-- What an item is: the least place that is due, and nothing else is lost. -/
structure Yields (it : Iter) (id : Nat) (rest : Iter) : Prop where
  due : it.Due id
  least : ∀ p, it.Due p → id ≤ p
  others : ∀ p, rest.Due p ↔ it.Due p ∧ p ≠ id
  lighter : rest.weight < it.weight

theorem yields_lowest {index : Nat} {current : UInt64} {ahead : List UInt64} (h : current ≠ 0) :
    Yields ⟨index, current, ahead⟩ (index * 64 + Word.trailingZeros current)
      ⟨index, Word.dropLowest current, ahead⟩ := by
  have hlt := Word.trailingZeros_lt h
  refine ⟨?_, ?_, ?_, Nat.add_lt_add_right (Word.toNat_dropLowest_lt h) _⟩
  · have hplace : index * 64 + Word.trailingZeros current - index * 64 =
      Word.trailingZeros current := by omega
    exact ⟨by simp, by rw [hplace, bit_cons, if_pos hlt, Word.bit_trailingZeros h]⟩
  · rintro p ⟨hle, hbit⟩
    refine Nat.le_of_not_lt fun hp => ?_
    simp only at hle hbit
    rw [bit_cons, if_pos (by omega), Word.bit_of_lt_trailingZeros (by omega)] at hbit
    cases hbit
  · intro p
    simp only [Due, and_assoc]
    refine and_congr_right fun hle => ?_
    rw [bit_cons, bit_cons]
    split
    · next hp =>
      have hplace : p - index * 64 ≠ Word.trailingZeros current ↔
          p ≠ index * 64 + Word.trailingZeros current := by omega
      rw [Word.bit_dropLowest h, Bool.and_eq_true, decide_eq_true_eq, hplace]
    · next hp =>
      have hne : p ≠ index * 64 + Word.trailingZeros current := by omega
      exact (and_iff_left hne).symm

theorem due_skip {index : Nat} {word : UInt64} {ahead : List UInt64} {p : Nat} :
    Due ⟨index, 0, word :: ahead⟩ p ↔ Due ⟨index + 1, word, ahead⟩ p := by
  simp only [Due]
  rw [bit_cons]
  split
  · next hp =>
    rw [Word.bit_zero]
    exact iff_of_false (fun h => Bool.noConfusion h.2) (by omega)
  · next hp =>
    have hplace : p - index * 64 - 64 = p - (index + 1) * 64 := by omega
    rw [hplace]
    exact and_congr_left fun _ => by omega

theorem Yields.skip {index : Nat} {word : UInt64} {ahead : List UInt64}
    (h : Yields ⟨index + 1, word, ahead⟩ id rest) : Yields ⟨index, 0, word :: ahead⟩ id rest where
  due := due_skip.mpr h.due
  least p hp := h.least p (due_skip.mp hp)
  others p := by rw [h.others, due_skip]
  lighter := by simpa [weight] using h.lighter

theorem yields_of_next (h : it.next = some (id, rest)) : it.Yields id rest := by
  obtain ⟨index, current, ahead⟩ := it
  simp only [next] at h
  induction ahead generalizing index current with
  | nil =>
    rw [nextFrom] at h
    split at h
    · next hne =>
      cases h
      exact yields_lowest hne
    · cases h
  | cons word ahead ih =>
    rw [nextFrom] at h
    split at h
    · next hne =>
      cases h
      exact yields_lowest hne
    · next heq =>
      obtain rfl : current = 0 := Decidable.not_not.mp heq
      exact (ih _ _ h).skip

theorem not_due_of_next (h : it.next = none) (p : Nat) : ¬ it.Due p := by
  obtain ⟨index, current, ahead⟩ := it
  simp only [next] at h
  induction ahead generalizing index current with
  | nil =>
    rw [nextFrom] at h
    split at h
    · cases h
    · next heq =>
      obtain rfl : current = 0 := Decidable.not_not.mp heq
      simp [Due, bit_cons]
  | cons word ahead ih =>
    rw [nextFrom] at h
    split at h
    · cases h
    · next heq =>
      obtain rfl : current = 0 := Decidable.not_not.mp heq
      exact fun hp => ih _ _ h (due_skip.mp hp)

def toList (it : Iter) : List Nat :=
  match _h : it.next with
  | none => []
  | some (id, rest) => id :: rest.toList
termination_by it.weight
decreasing_by exact (yields_of_next _h).lighter

theorem toList_of_none (h : it.next = none) : it.toList = [] := by
  rw [toList]
  split
  · rfl
  · next heq => cases h.symm.trans heq

theorem toList_of_some (h : it.next = some (id, rest)) : it.toList = id :: rest.toList := by
  rw [toList]
  split
  · next heq => cases h.symm.trans heq
  · next heq =>
    cases h.symm.trans heq
    rfl

theorem mem_toList {p : Nat} : p ∈ it.toList ↔ it.Due p := by
  induction it using toList.induct with
  | case1 it h => simp [toList_of_none h, not_due_of_next h]
  | case2 it id rest h ih =>
    have hyields := yields_of_next h
    rw [toList_of_some h, List.mem_cons, ih, hyields.others]
    by_cases hp : p = id
    · simp [hp, hyields.due]
    · simp [hp]

theorem toList_pairwise (it : Iter) : it.toList.Pairwise (· < ·) := by
  induction it using toList.induct with
  | case1 it h => simp [toList_of_none h]
  | case2 it id rest h ih =>
    have hyields := yields_of_next h
    rw [toList_of_some h]
    refine List.pairwise_cons.mpr ⟨fun p hp => ?_, ih⟩
    obtain ⟨hdue, hne⟩ := (hyields.others p).mp (mem_toList.mp hp)
    exact Nat.lt_of_le_of_ne (hyields.least p hdue) (Ne.symm hne)

end Iter

def toList (ws : List UInt64) : List Nat := (iter ws).toList

theorem mem_toList {ws : List UInt64} {p : Nat} : p ∈ toList ws ↔ bit ws p = true :=
  Iter.mem_toList.trans Iter.due_iter

theorem toList_pairwise (ws : List UInt64) : (toList ws).Pairwise (· < ·) :=
  (iter ws).toList_pairwise

theorem eq_of_ascending {l k : List Nat} (hl : l.Pairwise (· < ·)) (hk : k.Pairwise (· < ·))
    (h : ∀ p, p ∈ l ↔ p ∈ k) : l = k := by
  have hperm : l.Perm k := (List.perm_ext_iff_of_nodup (hl.imp Nat.ne_of_lt)
    (hk.imp Nat.ne_of_lt)).mpr fun p => h p
  exact hperm.eq_of_pairwise (fun _ _ _ _ hab hba => absurd hab (Nat.lt_asymm hba)) hl hk

theorem length_toList (ws : List UInt64) : (toList ws).length = countOnes ws := by
  have hfilter : toList ws = (List.range (64 * ws.length)).filter (bit ws) := by
    refine eq_of_ascending (toList_pairwise ws) (List.pairwise_lt_range.filter _) fun p => ?_
    rw [mem_toList, List.mem_filter, List.mem_range]
    refine (and_iff_right_of_imp fun hbit => Nat.lt_of_not_le fun hge => ?_).symm
    rw [bit_of_ge hge] at hbit
    cases hbit
  rw [hfilter, countOnes_eq_countP, List.countP_eq_length_filter]

end Words

end Depsolve
