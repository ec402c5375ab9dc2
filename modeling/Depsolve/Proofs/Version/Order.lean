import Depsolve.Evr
import Depsolve.Sort
import Mathlib.Data.List.Basic
import Mathlib.Order.Compare
/-!
# The order of builds

Comparing two version texts compares their tokens one after another, where the
end of a text counts as a token of its own. This makes the comparison of texts,
and with it that of builds, a total order up to spelling.
-/
namespace Depsolve

namespace Version

/-- The rank of a token, or of the end of the text. -/
def rank : Option Token → Nat
  | some .tilde => 0
  | none => 1
  | some .caret => 2
  | some (.letters _) => 3
  | some (.number _) => 4

/-- The length that decides between two numbers before their digits do. -/
def width : Option Token → Nat
  | some (.number digits) => digits.length
  | _ => 0

def content : Option Token → List Char
  | some (.letters run) => run
  | some (.number digits) => digits
  | _ => []

/-- The order of tokens and of the end. -/
def compareItems : Option Token → Option Token → Ordering :=
  compareLex (compareOn rank) (compareLex (compareOn width) (compareOn content))

instance : Std.TransCmp compareItems :=
  inferInstanceAs (Std.TransCmp
    (compareLex (compareOn rank) (compareLex (compareOn width) (compareOn content))))

/-- The tokens of a text with its end behind them. -/
def items (cs : List Char) : List (Option Token) := (tokensFrom .none cs).map some ++ [none]

theorem tokensFrom_digits (run cs : List Char) :
    tokensFrom (.digits run) cs = .number (stripZeros (run ++ cs.takeWhile Char.isDigit)) ::
      tokensFrom .none (cs.dropWhile Char.isDigit) := by
  induction cs generalizing run with
  | nil => simp [tokensFrom, Run.close]
  | cons c cs ih =>
    by_cases hc : c.isDigit = true
    · simp [tokensFrom, Run.read, hc, ih]
    · by_cases ha : c.isAlpha = true <;> by_cases ht : c = '~' <;> by_cases hk : c = '^' <;>
        simp [tokensFrom, Run.read, Run.close, hc, ha, ht, hk]

theorem toNat_of_isAlpha {c : Char} (h : c.isAlpha = true) :
    (65 ≤ c.toNat ∧ c.toNat ≤ 90) ∨ (97 ≤ c.toNat ∧ c.toNat ≤ 122) := by
  change (decide (c.val ≥ 'A'.val ∧ c.val ≤ 'Z'.val) ||
    (decide (c.val ≥ 'a'.val) && decide (c.val ≤ 'z'.val))) = true at h
  simp only [Bool.or_eq_true, Bool.and_eq_true, decide_eq_true_eq, UInt32.le_iff_toNat_le,
    ge_iff_le] at h
  exact h

theorem isDigit_of_isAlpha {c : Char} (h : c.isAlpha = true) : c.isDigit = false := by
  have hbounds := toNat_of_isAlpha h
  have htoNat : c.toNat = c.val.toNat := rfl
  have hnine : '9'.val.toNat = 57 := rfl
  simp only [Char.isDigit, Bool.and_eq_false_iff, decide_eq_false_iff_not, UInt32.le_iff_toNat_le,
    ge_iff_le]
  omega

theorem tokensFrom_letters (run cs : List Char) :
    tokensFrom (.letters run) cs = .letters (run ++ cs.takeWhile Char.isAlpha) ::
      tokensFrom .none (cs.dropWhile Char.isAlpha) := by
  induction cs generalizing run with
  | nil => simp [tokensFrom, Run.close]
  | cons c cs ih =>
    by_cases ha : c.isAlpha = true
    · simp [tokensFrom, Run.read, isDigit_of_isAlpha ha, ha, ih]
    · by_cases hc : c.isDigit = true <;> by_cases ht : c = '~' <;> by_cases hk : c = '^' <;>
        simp [tokensFrom, Run.read, Run.close, hc, ha, ht, hk]

theorem tokensFrom_skipSeparators (cs : List Char) :
    tokensFrom .none (skipSeparators cs) = tokensFrom .none cs := by
  induction cs with
  | nil => rfl
  | cons c cs ih =>
    by_cases hc : isPart c = true
    · simp [skipSeparators, hc]
    · have hskip : skipSeparators (c :: cs) = skipSeparators cs := by simp [skipSeparators, hc]
      rw [hskip, ih]
      simp only [isPart, isMark, Char.isAlphanum, Bool.or_eq_true, beq_iff_eq, not_or] at hc
      simp [tokensFrom, Run.read, Run.close, hc]

section Items

variable {cs rest : List Char} {c : Char}

theorem items_skipSeparators (cs : List Char) : items (skipSeparators cs) = items cs := by
  rw [items, items, tokensFrom_skipSeparators]

theorem items_of_nil (h : skipSeparators cs = []) : items cs = [none] := by
  rw [← items_skipSeparators, h]
  rfl

theorem items_of_tilde (h : skipSeparators cs = '~' :: rest) :
    items cs = some .tilde :: items rest := by
  rw [← items_skipSeparators, h]
  rfl

theorem items_of_caret (h : skipSeparators cs = '^' :: rest) :
    items cs = some .caret :: items rest := by
  rw [← items_skipSeparators, h]
  rfl

theorem items_of_digit (h : skipSeparators cs = c :: rest) (hc : c.isDigit = true) :
    items cs = some (.number (stripZeros ((c :: rest).takeWhile Char.isDigit))) ::
      items ((c :: rest).dropWhile Char.isDigit) := by
  rw [← items_skipSeparators, h]
  simp [items, tokensFrom, Run.read, Run.close, hc, tokensFrom_digits]

theorem isAlpha_of_skipSeparators (h : skipSeparators cs = c :: rest) (hdigit : c.isDigit = false)
    (htilde : c ≠ '~') (hcaret : c ≠ '^') : c.isAlpha = true := by
  have hhead := List.head?_dropWhile_not (fun c => !isPart c) cs
  rw [skipSeparators] at h
  rw [h] at hhead
  simpa [isPart, isMark, Char.isAlphanum, hdigit, htilde, hcaret] using hhead

theorem items_of_letter (h : skipSeparators cs = c :: rest) (halpha : c.isAlpha = true) :
    items cs = some (.letters ((c :: rest).takeWhile Char.isAlpha)) ::
      items ((c :: rest).dropWhile Char.isAlpha) := by
  have hdigit := isDigit_of_isAlpha halpha
  rw [← items_skipSeparators, h]
  simp [items, tokensFrom, Run.read, Run.close, hdigit, halpha, tokensFrom_letters]

/-- The rank of the first item, read off the text. -/
def frontRank : List Char → Nat
  | [] => 1
  | c :: _ => if c = '~' then 0 else if c = '^' then 2 else if c.isDigit then 4 else 3

theorem frontRank_cons (htilde : c ≠ '~') (hcaret : c ≠ '^') :
    frontRank (c :: rest) = if c.isDigit then 4 else 3 := by
  rw [frontRank, if_neg htilde, if_neg hcaret]

theorem exists_items (cs : List Char) :
    ∃ i is, items cs = i :: is ∧ rank i = frontRank (skipSeparators cs) := by
  cases h : skipSeparators cs with
  | nil => exact ⟨_, _, items_of_nil h, rfl⟩
  | cons c rest =>
    by_cases htilde : c = '~'
    · subst htilde
      exact ⟨_, _, items_of_tilde h, rfl⟩
    · by_cases hcaret : c = '^'
      · subst hcaret
        exact ⟨_, _, items_of_caret h, rfl⟩
      · rw [frontRank_cons htilde hcaret]
        cases hdigit : c.isDigit with
        | true => exact ⟨_, _, items_of_digit h hdigit, rfl⟩
        | false =>
          have halpha := isAlpha_of_skipSeparators h hdigit htilde hcaret
          exact ⟨_, _, items_of_letter h halpha, rfl⟩

end Items

theorem compareItems_of_rank_lt {i j : Option Token} (h : rank i < rank j) :
    compareItems i j = .lt := by
  have hrank : compareOn rank i j = .lt := Nat.compare_eq_lt.mpr h
  rw [compareItems, compareLex, hrank]
  rfl

section Fronts

variable {a b : List Char}

theorem compareLex_items_of_lt (h : frontRank (skipSeparators a) < frontRank (skipSeparators b)) :
    List.compareLex compareItems (items a) (items b) = .lt := by
  obtain ⟨i, is, ha, hi⟩ := exists_items a
  obtain ⟨j, js, hb, hj⟩ := exists_items b
  rw [ha, hb, List.compareLex_cons_cons, compareItems_of_rank_lt (by omega)]
  rfl

theorem compareLex_items_of_gt (h : frontRank (skipSeparators b) < frontRank (skipSeparators a)) :
    List.compareLex compareItems (items a) (items b) = .gt :=
  Std.OrientedCmp.gt_of_lt (compareLex_items_of_lt h)

end Fronts

theorem frontRank_pos {cs : List Char} (h : ∀ rest, cs = '~' :: rest → False) :
    0 < frontRank cs := by
  cases cs with
  | nil => decide
  | cons c rest =>
    have htilde : c ≠ '~' := by
      rintro rfl
      exact h rest rfl
    simp only [frontRank, if_neg htilde]
    split_ifs <;> decide

theorem two_lt_frontRank {cs : List Char} (htilde : ∀ rest, cs = '~' :: rest → False)
    (hcaret : ∀ rest, cs = '^' :: rest → False) (hnil : cs = [] → False) : 2 < frontRank cs := by
  cases cs with
  | nil => exact absurd rfl hnil
  | cons c rest =>
    have ht : c ≠ '~' := by
      rintro rfl
      exact htilde rest rfl
    have hc : c ≠ '^' := by
      rintro rfl
      exact hcaret rest rfl
    rw [frontRank_cons ht hc]
    split_ifs <;> decide

theorem compareItems_letters (x y : List Char) :
    compareItems (some (.letters x)) (some (.letters y)) = compareText x y := rfl

theorem compareItems_digits (x y : List Char) :
    compareItems (some (.number (stripZeros x))) (some (.number (stripZeros y))) =
      compareDigits x y := rfl

theorem length_lt_of_skipSeparators {cs rest : List Char} {c : Char}
    (h : skipSeparators cs = c :: rest) : rest.length < cs.length := by
  have hle : (skipSeparators cs).length ≤ cs.length := (List.dropWhile_sublist _).length_le
  rw [h, List.length_cons] at hle
  omega

theorem compareUpTo_eq {fuel : Nat} {a b : List Char} (hfuel : a.length < fuel) :
    compareUpTo fuel a b = List.compareLex compareItems (items a) (items b) := by
  induction fuel generalizing a b with
  | zero => omega
  | succ fuel ih =>
    rw [compareUpTo]
    split
    case h_1 rest _ ha hb =>
      have hlen := length_lt_of_skipSeparators ha
      rw [items_of_tilde ha, items_of_tilde hb, List.compareLex_cons_cons, ih (by omega)]
      rfl
    case h_2 ha hb =>
      refine (compareLex_items_of_lt ?_).symm
      rw [ha]
      exact frontRank_pos hb
    case h_3 hb ha =>
      refine (compareLex_items_of_gt ?_).symm
      rw [hb]
      exact frontRank_pos ha
    case h_4 rest _ ha hb =>
      have hlen := length_lt_of_skipSeparators ha
      rw [items_of_caret ha, items_of_caret hb, List.compareLex_cons_cons, ih (by omega)]
      rfl
    case h_5 ha hb =>
      refine (compareLex_items_of_gt ?_).symm
      rw [ha, hb]
      exact Nat.lt_succ_self 1
    case h_6 ha htilde hcaret hnil =>
      refine (compareLex_items_of_lt ?_).symm
      rw [ha]
      exact two_lt_frontRank htilde hcaret hnil
    case h_7 ha hb =>
      refine (compareLex_items_of_lt ?_).symm
      rw [ha, hb]
      exact Nat.lt_succ_self 1
    case h_8 hb htilde hcaret hnil =>
      refine (compareLex_items_of_gt ?_).symm
      rw [hb]
      exact two_lt_frontRank htilde hcaret hnil
    case h_9 ha hb =>
      rw [items_of_nil ha, items_of_nil hb]
      rfl
    case h_10 ha htilde hcaret hnil =>
      refine (compareLex_items_of_lt ?_).symm
      have hrank := two_lt_frontRank htilde hcaret hnil
      rw [ha]
      exact Nat.lt_of_succ_lt hrank
    case h_11 hb htilde hcaret hnil =>
      refine (compareLex_items_of_gt ?_).symm
      have hrank := two_lt_frontRank htilde hcaret hnil
      rw [hb]
      exact Nat.lt_of_succ_lt hrank
    case h_12 x as y bs _ hxt hyt _ hxc hyc ha hb =>
      have hlen := length_lt_of_skipSeparators ha
      cases hx : x.isDigit <;> cases hy : y.isDigit <;> dsimp only
      case false.false =>
        have hcut : (as.dropWhile Char.isAlpha).length ≤ as.length :=
          (List.dropWhile_sublist _).length_le
        have hxa := isAlpha_of_skipSeparators ha hx hxt hxc
        have hya := isAlpha_of_skipSeparators hb hy hyt hyc
        rw [items_of_letter ha hxa, items_of_letter hb hya, List.compareLex_cons_cons,
          compareItems_letters, ih (by omega), List.dropWhile_cons_of_pos hxa,
          List.dropWhile_cons_of_pos hya]
      case false.true =>
        refine (compareLex_items_of_lt ?_).symm
        rw [ha, hb, frontRank_cons hxt hxc, frontRank_cons hyt hyc, hx, hy]
        decide
      case true.false =>
        refine (compareLex_items_of_gt ?_).symm
        rw [ha, hb, frontRank_cons hxt hxc, frontRank_cons hyt hyc, hx, hy]
        decide
      case true.true =>
        have hcut : (as.dropWhile Char.isDigit).length ≤ as.length :=
          (List.dropWhile_sublist _).length_le
        rw [items_of_digit ha hx, items_of_digit hb hy, List.compareLex_cons_cons,
          compareItems_digits, ih (by omega), List.dropWhile_cons_of_pos hx,
          List.dropWhile_cons_of_pos hy]

theorem compare_eq (a b : String) :
    compare a b = List.compareLex compareItems (items a.toList) (items b.toList) :=
  compareUpTo_eq (Nat.lt_succ_self _)

instance : Std.TransCmp compare := by
  have hcompare : compare = fun a b =>
      List.compareLex compareItems (items a.toList) (items b.toList) := by
    funext a b
    exact compare_eq a b
  rw [hcompare]
  exact transCmp_comap (List.compareLex compareItems) fun a : String => items a.toList

end Version

namespace Evr

/-- A missing release comes before any other, and as a text it is empty. -/
theorem compareRelease_eq (a b : Evr) : compareRelease a b =
    (Ord.compare a.hasRelease b.hasRelease).then (Version.compare a.release b.release) := by
  cases ha : a.hasRelease <;> cases hb : b.hasRelease <;> simp only [compareRelease, ha, hb]
  case false.false =>
    have hnone : ∀ e : Evr, e.hasRelease = false → e.release = "" := fun e he => by
      simpa [hasRelease] using he
    have hself : Version.compare "" "" = .eq := Std.ReflCmp.compare_self
    rw [hnone a ha, hnone b hb, hself]
    rfl
  all_goals rfl

instance : Std.TransCmp compareRelease := by
  have hrelease := transCmp_comap Version.compare release
  have hcompare : compareRelease = compareLex (compareOn hasRelease)
      (fun a b => Version.compare a.release b.release) := by
    funext a b
    exact compareRelease_eq a b
  rw [hcompare]
  infer_instance

instance : Std.TransCmp compare := by
  have hversion := transCmp_comap Version.compare version
  exact inferInstanceAs (Std.TransCmp (compareLex (compareOn epoch)
    (compareLex (fun a b => Version.compare a.version b.version) compareRelease)))

section Newer

variable {a b c : Evr}

theorem older_self : a.older a = false := by
  have hself : compare a a = .eq := Std.ReflCmp.compare_self
  rw [older, hself]
  rfl

theorem not_older_of_newer (h : a.newer b = true) : a.older b = false := by
  simp only [newer, beq_iff_eq] at h
  rw [older, h]
  rfl

theorem not_older_of_not_newer (hab : b.newer a = false) (hbc : b.older c = false) :
    a.older c = false := by
  by_contra h
  have hac : compare a c = .lt := by simpa [older] using h
  have hba : (compare b a).isLE = true := by
    cases hcmp : compare b a <;> simp_all [newer]
  have hlt : compare b c = .lt := Std.TransCmp.lt_of_isLE_of_lt hba hac
  simp [older, hlt] at hbc

end Newer

end Evr

end Depsolve
