import Depsolve.Text.Blank
import Depsolve.Text.Numeral
/-!
# Reading back decimal numerals

The decimal text of a word is read as this word, and a run of digits that is read as a
word is the decimal text of it behind some zeros.
-/
namespace Depsolve

@[simp] theorem toString_string (s : String) : toString s = s := rfl

section Digits

variable {cs : List Char} {c : Char}

theorem digitsValue_toDigits (n : Nat) : digitsValue (Nat.toDigits 10 n) = n := by
  show Nat.ofDigitChars 10 (Nat.toDigits 10 n) 0 = n
  exact Nat.ofDigitChars_ten_toDigits

theorem digitsValue_concat (cs : List Char) (c : Char) :
    digitsValue (cs ++ [c]) = 10 * digitsValue cs + (c.toNat - '0'.toNat) := by
  simp [digitsValue]

theorem isDigit_of_mem_toDigits {n : Nat} (h : c ∈ Nat.toDigits 10 n) : c.isDigit = true :=
  Nat.isDigit_of_mem_toDigits (by decide) (by decide) h

theorem toNat_of_isDigit (h : c.isDigit = true) : '0'.toNat ≤ c.toNat ∧ c.toNat ≤ '9'.toNat := by
  simp only [Char.isDigit, Bool.and_eq_true, decide_eq_true_eq, UInt32.le_iff_toNat_le,
    ge_iff_le] at h
  exact h

theorem isBlank_of_isDigit {c : Char} (h : c.isDigit = true) : isBlank c = false := by
  have hbounds := toNat_of_isDigit h
  have hzero : '0'.toNat = 48 := rfl
  have hnine : '9'.toNat = 57 := rfl
  simp only [isBlank, isBlankCode, Bool.or_eq_false_iff, Bool.and_eq_false_iff, beq_eq_false_iff_ne,
    decide_eq_false_iff_not]
  omega

theorem toDigits_of_isDigit (h : c.isDigit = true) :
    c.toNat - '0'.toNat < 10 ∧ Nat.toDigits 10 (c.toNat - '0'.toNat) = [c] := by
  have hbounds := toNat_of_isDigit h
  have hzero : '0'.toNat = 48 := rfl
  have hnine : '9'.toNat = 57 := rfl
  have hlt : c.toNat - '0'.toNat < 10 := by omega
  have hchar : (c.toNat - '0'.toNat).digitChar = c := by
    apply Char.toNat_inj.mp
    rw [Nat.toNat_digitChar_of_lt_ten hlt]
    omega
  rw [Nat.toDigits_of_lt_base hlt, hchar]
  exact ⟨hlt, rfl⟩

/-- A run of digits is the decimal text of its value behind some zeros. -/
theorem exists_zeros (hsome : cs ≠ []) (hdigits : ∀ c ∈ cs, c.isDigit = true) :
    ∃ zeros, cs = List.replicate zeros '0' ++ Nat.toDigits 10 (digitsValue cs) := by
  -- from the end, where the lowest digit stands
  induction hrev : cs.reverse generalizing cs with
  | nil => simp [hsome] at hrev
  | cons c front ih =>
    obtain rfl : cs = front.reverse ++ [c] := by simpa using congrArg List.reverse hrev
    have hc := toDigits_of_isDigit (hdigits c (by simp))
    rw [digitsValue_concat]
    by_cases hfront : front.reverse = []
    · have hvalue : digitsValue front.reverse = 0 := by rw [hfront]; rfl
      exact ⟨0, by rw [hvalue, Nat.mul_zero, Nat.zero_add, hc.2, hfront]; rfl⟩
    · obtain ⟨zeros, hzeros⟩ := ih hfront (fun x hx => hdigits x (by simp [hx])) (by simp)
      by_cases hvalue : digitsValue front.reverse = 0
      · rw [hvalue, Nat.toDigits_zero] at hzeros
        refine ⟨zeros + 1, ?_⟩
        rw [hvalue, Nat.mul_zero, Nat.zero_add, hc.2, List.replicate_succ', ← hzeros]
      · refine ⟨zeros, ?_⟩
        rw [← Nat.toDigits_append_toDigits (by decide) (Nat.pos_of_ne_zero hvalue) hc.1, hc.2,
          ← List.append_assoc, ← hzeros]

end Digits

section Words

variable {digits : List Char} {n : UInt32}

theorem readDigits?_of_isDigit (hsome : digits ≠ []) (h : ∀ c ∈ digits, c.isDigit = true) :
    readDigits? digits = some (digitsValue digits) := by
  have hall : digits.all Char.isDigit = true := List.all_eq_true.mpr h
  simp [readDigits?, hsome, hall]

theorem readBelow?_of_isDigit (bound : Nat) (hsome : digits ≠ [])
    (h : ∀ c ∈ digits, c.isDigit = true) :
    readBelow? bound digits = (some (digitsValue digits)).filter (· < bound) := by
  rw [← readDigits?_of_isDigit hsome h]
  cases digits with
  | nil => rfl
  | cons c cs =>
    have hplus : c ≠ '+' := fun hc => absurd (h c List.mem_cons_self) (by rw [hc]; decide)
    simp [readBelow?, hplus]

theorem readUInt32?_toDigits (n : UInt32) : readUInt32? (Nat.toDigits 10 n.toNat) = some n := by
  rw [readUInt32?, readBelow?_of_isDigit _ Nat.toDigits_ne_nil fun _ => isDigit_of_mem_toDigits,
    digitsValue_toDigits]
  have hlt := n.toNat_lt
  simp [Option.filter, hlt]

theorem exists_zeros_of_readUInt32? (hsome : digits ≠ []) (h : ∀ c ∈ digits, c.isDigit = true)
    (hn : readUInt32? digits = some n) :
    ∃ zeros, digits = List.replicate zeros '0' ++ Nat.toDigits 10 n.toNat := by
  rw [readUInt32?, readBelow?_of_isDigit _ hsome h, Option.map_eq_some_iff] at hn
  obtain ⟨value, hvalue, rfl⟩ := hn
  rw [Option.filter_eq_some_iff, Option.some.injEq, decide_eq_true_eq] at hvalue
  rw [UInt32.toNat_ofNat_of_lt' hvalue.2, ← hvalue.1]
  exact exists_zeros hsome h

end Words

end Depsolve
