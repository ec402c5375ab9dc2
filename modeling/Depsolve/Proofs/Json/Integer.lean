import Depsolve.Proofs.Json.Course
import Depsolve.Proofs.Text.Numeral
/-!
# Reading whole numbers

The digits of an integer lead into a number literal that holds these digits, and the value of the
literal is the integer as long as it fits in 64 bits, with a sign or without one.
-/
namespace Depsolve.Json

-- `2 ^ n` is the power of natural numbers itself, as it is for the reader
attribute [local instance (high)] instPowNat

namespace Reading

variable {m : Mode} {st : List OpenDraft} {c : Char}

def wholeLiteral (negative : Bool) (digits : List Char) : NumberLiteral where
  stage := if digits = ['0'] then .zero else .whole
  negative := negative
  whole := digits.reverse

/-- A place from where the first digit leads into a number. -/
def AwaitsDigit (negative : Bool) (m : Mode) (st : List OpenDraft) : Prop :=
  ∀ c, c.isDigit = true → Reads m st [c] (.number (wholeLiteral negative [c])) st

theorem ne_of_isDigit {c x : Char} (h : c.isDigit = true) (hx : x.isDigit = false) : c ≠ x := by
  rintro rfl
  rw [h] at hx
  nomatch hx

theorem start?_of_isDigit (h : c.isDigit = true) :
    NumberLiteral.start? c = some (wholeLiteral false [c]) := by
  have hminus : (c == '-') = false := beq_eq_false_iff_ne.mpr (ne_of_isDigit h rfl)
  simp only [NumberLiteral.start?, hminus, Bool.false_eq_true, if_false, beq_iff_eq, h, if_true,
    wholeLiteral, List.cons.injEq, and_true, List.reverse_singleton]
  split <;> rfl

theorem awaitsDigit_value (before : Before) (st : List OpenDraft) :
    AwaitsDigit false (.value before) st := by
  intro c hdigit
  have hne (x : Char) (hx : x.isDigit = false) : (c == x) = false :=
    beq_eq_false_iff_ne.mpr (ne_of_isDigit hdigit hx)
  refine reads_begin st c (by simp [isJsonBlank, hne]) (hne ']' rfl) fun r => ?_
  unfold beginValue
  split
  iterate 6 exact absurd hdigit (by decide)
  rw [start?_of_isDigit hdigit]

theorem reads_more {l l' : NumberLiteral} (st : List OpenDraft) (h : l.next? c = some l') :
    Reads (.number l) st [c] (.number l') st := by
  refine reads_one fun r hr => ?_
  simp only [step, hr.mode, stepNumber, h]
  exact goes_ok ((hr.refuse _ _ _).take _ _)

theorem awaitsDigit_sign (st : List OpenDraft) :
    AwaitsDigit true (.number { stage := .sign, negative := true }) st := by
  intro c hdigit
  refine reads_more st ?_
  simp only [NumberLiteral.next?, beq_iff_eq, hdigit, if_true, wholeLiteral, List.cons.injEq,
    and_true, List.reverse_singleton]
  split <;> rfl

theorem next?_wholeLiteral (negative : Bool) {digits : List Char} (hsome : digits ≠ [])
    (hzero : digits ≠ ['0']) (hdigit : c.isDigit = true) :
    (wholeLiteral negative digits).next? c = some (wholeLiteral negative (digits ++ [c])) := by
  have hlonger : digits ++ [c] ≠ ['0'] := by
    intro h
    have hlength := congrArg List.length h
    exact hsome (List.length_eq_zero_iff.mp (by simpa using hlength))
  simp [NumberLiteral.next?, wholeLiteral, hzero, hlonger, hdigit]

theorem toDigits_ne_zero {n : Nat} (h : 0 < n) : Nat.toDigits 10 n ≠ ['0'] := by
  intro hzero
  have hvalue := digitsValue_toDigits n
  rw [hzero] at hvalue
  exact absurd hvalue (Nat.ne_of_lt h)

theorem reads_digits {negative : Bool} (hfirst : AwaitsDigit negative m st) (n : Nat) :
    Reads m st (Nat.toDigits 10 n) (.number (wholeLiteral negative (Nat.toDigits 10 n))) st := by
  -- from the end, where the lowest digit stands; what comes before it is no zero
  induction n using Nat.strongRecOn with
  | ind n ih =>
    have hdigit : ∀ d < 10, d.digitChar.isDigit = true := by decide
    by_cases hlt : n < 10
    · rw [Nat.toDigits_of_lt_base hlt]
      exact hfirst _ (hdigit n hlt)
    · have hpos : 0 < n / 10 := Nat.div_pos (Nat.le_of_not_lt hlt) (by decide)
      have hlast : n % 10 < 10 := Nat.mod_lt n (by decide)
      have hdigits : Nat.toDigits 10 n = Nat.toDigits 10 (n / 10) ++ [(n % 10).digitChar] := by
        rw [← Nat.toDigits_of_lt_base hlast, Nat.toDigits_append_toDigits (by decide) hpos hlast,
          Nat.div_add_mod]
      rw [hdigits]
      exact reads_append (ih (n / 10) (Nat.div_lt_self (by omega) (by decide))) (reads_more st
        (next?_wholeLiteral negative Nat.toDigits_ne_nil (toDigits_ne_zero hpos) (hdigit _ hlast)))

theorem le_foldl_digits (cs : List Char) (n : Nat) :
    n ≤ cs.foldl (fun n c => 10 * n + (c.toNat - '0'.toNat)) n := by
  induction cs generalizing n with
  | nil => exact Nat.le_refl n
  | cons c cs ih =>
    have hgrows : n ≤ 10 * n + (c.toNat - '0'.toNat) := by omega
    exact Nat.le_trans hgrows (ih _)

/-- Digits that are together no more than a word are all taken. -/
theorem pushDigits_eq {cs : List Char} (word : Nat)
    (h : cs.foldl (fun n c => 10 * n + (c.toNat - '0'.toNat)) word < 2 ^ (64 : Nat)) :
    NumberLiteral.pushDigits word cs =
      (cs.foldl (fun n c => 10 * n + (c.toNat - '0'.toNat)) word, []) := by
  induction cs generalizing word with
  | nil => rfl
  | cons c cs ih =>
    have hnext : 10 * word + digitOf c < 2 ^ (64 : Nat) :=
      Nat.lt_of_le_of_lt (le_foldl_digits cs _) h
    rw [NumberLiteral.pushDigits]
    simp only [hnext, if_true]
    exact ih _ h

theorem pushDigits_toDigits {n : Nat} (h : n < 2 ^ (64 : Nat)) :
    NumberLiteral.pushDigits 0 (Nat.toDigits 10 n) = (n, []) := by
  have hvalue : (Nat.toDigits 10 n).foldl (fun n c => 10 * n + (c.toNat - '0'.toNat)) 0 = n :=
    digitsValue_toDigits n
  rw [pushDigits_eq 0 (hvalue.symm ▸ h), hvalue]

theorem wholeLiteral_stage (negative : Bool) (digits : List Char) :
    (wholeLiteral negative digits).stage = .zero ∨
      (wholeLiteral negative digits).stage = .whole := by
  unfold wholeLiteral
  split
  · exact .inl rfl
  · exact .inr rfl

theorem value?_wholeLiteral (negative : Bool) {n : Nat} (h : n < 2 ^ (64 : Nat)) :
    (wholeLiteral negative (Nat.toDigits 10 n)).value? =
      if !negative then some (.int n)
      else if 0 < n && n ≤ 2 ^ (63 : Nat) then some (.int (-(n : Int)))
      else some (.float (-(Float.ofNat n))) := by
  have hwhole : (wholeLiteral negative (Nat.toDigits 10 n)).whole.reverse = Nat.toDigits 10 n :=
    List.reverse_reverse _
  have hstage : ((wholeLiteral negative (Nat.toDigits 10 n)).stage == .zero ||
      (wholeLiteral negative (Nat.toDigits 10 n)).stage == .whole) = true := by
    obtain h | h := wholeLiteral_stage negative (Nat.toDigits 10 n) <;> rw [h] <;> rfl
  simp only [NumberLiteral.value?, hwhole, pushDigits_toDigits h, hstage, List.isEmpty_nil,
    Bool.and_self, if_true]
  rfl

/-- An integer that fits in 64 bits, with a sign or without one. -/
def IsWord : Int → Prop
  | .ofNat n => n < 2 ^ (64 : Nat)
  | .negSucc n => n < 2 ^ (63 : Nat)

theorem reads_int {n : Int} (hword : IsWord n) :
    ∃ l : NumberLiteral,
      (∀ before st, Reads (.value before) st (toString n).toList (.number l) st) ∧
      (l.stage = .zero ∨ l.stage = .whole) ∧ l.value? = some (.int n) := by
  cases n with
  | ofNat n =>
    have hchars : (toString (Int.ofNat n)).toList = Nat.toDigits 10 n := String.toList_ofList
    rw [hchars]
    exact ⟨_, fun before st => reads_digits (awaitsDigit_value before st) n,
      wholeLiteral_stage _ _, value?_wholeLiteral false hword⟩
  | negSucc n =>
    have hchars : (toString (Int.negSucc n)).toList = '-' :: Nat.toDigits 10 (n + 1) := by
      show ("-" ++ String.ofList (Nat.toDigits 10 (n + 1))).toList = _
      simp only [String.toList_append, String.toList_ofList]
      rfl
    have hle : n + 1 ≤ 2 ^ (63 : Nat) := hword
    have hlt : n + 1 < 2 ^ (64 : Nat) := Nat.lt_of_le_of_lt hle (by decide)
    rw [hchars]
    refine ⟨_, fun before st => reads_cons (reads_begin st '-' rfl rfl fun _ => rfl)
      (reads_digits (awaitsDigit_sign st) (n + 1)), wholeLiteral_stage _ _, ?_⟩
    rw [value?_wholeLiteral true hlt]
    simp [hle, Int.negSucc_eq]

end Reading

end Depsolve.Json
