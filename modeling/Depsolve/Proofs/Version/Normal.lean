import Depsolve.Proofs.Text.Cut
import Depsolve.Proofs.Text.Numeral
import Depsolve.Proofs.Version.Order
/-!
# Normal forms of versions

A version text stands for a row of marks, numbers and words. The comparison of
two texts is that of their rows, item by item, where numbers count by their value,
so texts are equal in the order exactly if they have the same row.
-/
namespace Depsolve

-- `10 ^ n` is the power of natural numbers itself, whatever other powers are in scope
attribute [local instance (high)] instPowNat

namespace Version

section Digits

variable {a b cs : List Char} {c : Char}

theorem foldl_digits (n : Nat) (cs : List Char) :
    cs.foldl (fun n c => 10 * n + (c.toNat - '0'.toNat)) n =
      n * 10 ^ cs.length + digitsValue cs := by
  induction cs generalizing n with
  | nil => simp [digitsValue]
  | cons c cs ih =>
    have hrest := ih (10 * n + (c.toNat - '0'.toNat))
    have hfirst := ih (10 * 0 + (c.toNat - '0'.toNat))
    simp only [digitsValue, List.foldl_cons, List.length_cons] at hfirst ⊢
    rw [hrest, hfirst]
    simp only [digitsValue, Nat.pow_succ, Nat.add_mul, Nat.mul_comm 10 n, Nat.mul_assoc,
      Nat.mul_comm 10]
    omega

theorem digitsValue_cons (c : Char) (cs : List Char) :
    digitsValue (c :: cs) = (c.toNat - '0'.toNat) * 10 ^ cs.length + digitsValue cs := by
  rw [digitsValue, List.foldl_cons, foldl_digits]
  simp

theorem digitsValue_lt (h : ∀ c ∈ cs, c.isDigit = true) : digitsValue cs < 10 ^ cs.length := by
  induction cs with
  | nil => simp [digitsValue]
  | cons c cs ih =>
    have hrest := ih fun x hx => h x (List.mem_cons_of_mem _ hx)
    have hc := toNat_of_isDigit (h c List.mem_cons_self)
    have hzero : '0'.toNat = 48 := rfl
    have hnine : '9'.toNat = 57 := rfl
    have hdigit : c.toNat - '0'.toNat ≤ 9 := by omega
    have hmul := Nat.mul_le_mul_right (10 ^ cs.length) hdigit
    rw [digitsValue_cons, List.length_cons, Nat.pow_succ]
    omega

theorem digitsValue_stripZeros (cs : List Char) :
    digitsValue (stripZeros cs) = digitsValue cs := by
  induction cs with
  | nil => rfl
  | cons c cs ih =>
    by_cases hc : c = '0'
    · subst hc
      have hstrip : stripZeros ('0' :: cs) = stripZeros cs := by simp [stripZeros]
      rw [hstrip, ih, digitsValue_cons]
      simp
    · have hstrip : stripZeros (c :: cs) = c :: cs := by simp [stripZeros, hc]
      rw [hstrip]

theorem compare_chars (x y : Char) : Ord.compare x y = Ord.compare x.toNat y.toNat := by
  show compareOfLessAndEq x y = compareOfLessAndEq x.toNat y.toNat
  have hlt : x < y ↔ x.toNat < y.toNat := Iff.rfl
  have heq : x = y ↔ x.toNat = y.toNat := Char.toNat_inj.symm
  simp only [compareOfLessAndEq, hlt, heq]

theorem digitsValue_lt_of_head_lt {x y : Char} (hx : x.isDigit = true) (hlt : x.toNat < y.toNat)
    (ha : ∀ c ∈ a, c.isDigit = true) (hlength : a.length = b.length) :
    digitsValue (x :: a) < digitsValue (y :: b) := by
  have hrest := digitsValue_lt ha
  have hzero := (toNat_of_isDigit hx).1
  have hdigit : x.toNat - '0'.toNat + 1 ≤ y.toNat - '0'.toNat := by omega
  have hmul := Nat.mul_le_mul_right (10 ^ a.length) hdigit
  rw [Nat.add_mul, Nat.one_mul] at hmul
  rw [digitsValue_cons, digitsValue_cons, ← hlength]
  omega

theorem compare_add_left (n x y : Nat) : Ord.compare (n + x) (n + y) = Ord.compare x y := by
  simp only [Nat.compare_eq_ite_lt, Nat.add_lt_add_iff_left]

theorem compareText_of_length_eq (ha : ∀ c ∈ a, c.isDigit = true)
    (hb : ∀ c ∈ b, c.isDigit = true) (hlength : a.length = b.length) :
    compareText a b = Ord.compare (digitsValue a) (digitsValue b) := by
  induction a generalizing b with
  | nil =>
    rw [List.length_nil, eq_comm, List.length_eq_zero_iff] at hlength
    rw [hlength]
    rfl
  | cons x a ih =>
    cases b with
    | nil => simp at hlength
    | cons y b =>
      obtain ⟨hx, ha⟩ := List.forall_mem_cons.mp ha
      obtain ⟨hy, hb⟩ := List.forall_mem_cons.mp hb
      have hlength' : a.length = b.length := Nat.succ.inj hlength
      have hrest := ih ha hb hlength'
      rw [compareText] at hrest
      rw [compareText, List.compareLex_cons_cons, hrest, compare_chars]
      rcases Nat.lt_trichotomy x.toNat y.toNat with hlt | heq | hgt
      · have hvalue := digitsValue_lt_of_head_lt hx hlt ha hlength'
        rw [Nat.compare_eq_lt.mpr hlt, Nat.compare_eq_lt.mpr hvalue]
        rfl
      · rw [digitsValue_cons, digitsValue_cons, heq, hlength', Nat.compare_eq_eq.mpr rfl,
          compare_add_left]
        rfl
      · have hvalue := digitsValue_lt_of_head_lt hy hgt hb hlength'.symm
        rw [Nat.compare_eq_gt.mpr hgt, Nat.compare_eq_gt.mpr hvalue]
        rfl

theorem digitsValue_lt_of_length_lt (ha : ∀ c ∈ a, c.isDigit = true)
    (hb : ∀ c ∈ b, c.isDigit = true) (hfront : b.head? ≠ some '0') (hlength : a.length < b.length) :
    digitsValue a < digitsValue b := by
  cases b with
  | nil => simp at hlength
  | cons y b =>
    have hy := (toNat_of_isDigit (hb y List.mem_cons_self)).1
    have hne : y.toNat ≠ '0'.toNat := fun h => hfront (by rw [Char.toNat_inj.mp h]; rfl)
    have hdigit : 1 ≤ y.toNat - '0'.toNat := by omega
    have hmul := Nat.mul_le_mul_right (10 ^ b.length) hdigit
    have hpow : 10 ^ a.length ≤ 10 ^ b.length :=
      Nat.pow_le_pow_right (by decide) (Nat.le_of_lt_succ hlength)
    have hvalue := digitsValue_lt ha
    rw [digitsValue_cons]
    omega

theorem mem_of_mem_stripZeros (h : c ∈ stripZeros cs) : c ∈ cs :=
  (List.dropWhile_sublist _).subset h

theorem head?_stripZeros (cs : List Char) : (stripZeros cs).head? ≠ some '0' := by
  intro h
  have hfront := List.head?_dropWhile_not (· == '0') cs
  rw [stripZeros] at h
  rw [h] at hfront
  simp at hfront

theorem compareDigits_eq (ha : ∀ c ∈ a, c.isDigit = true) (hb : ∀ c ∈ b, c.isDigit = true) :
    compareDigits a b = Ord.compare (digitsValue a) (digitsValue b) := by
  have ha' : ∀ c ∈ stripZeros a, c.isDigit = true := fun c hc => ha c (mem_of_mem_stripZeros hc)
  have hb' : ∀ c ∈ stripZeros b, c.isDigit = true := fun c hc => hb c (mem_of_mem_stripZeros hc)
  rw [compareDigits, ← digitsValue_stripZeros a, ← digitsValue_stripZeros b]
  rcases Nat.lt_trichotomy (stripZeros a).length (stripZeros b).length with hlt | heq | hgt
  · have hvalue := digitsValue_lt_of_length_lt ha' hb' (head?_stripZeros b) hlt
    rw [Nat.compare_eq_lt.mpr hlt, Nat.compare_eq_lt.mpr hvalue]
    rfl
  · rw [Nat.compare_eq_eq.mpr heq, compareText_of_length_eq ha' hb' heq]
    rfl
  · have hvalue := digitsValue_lt_of_length_lt hb' ha' (head?_stripZeros a) hgt
    rw [Nat.compare_eq_gt.mpr hgt, Nat.compare_eq_gt.mpr hvalue]
    rfl

end Digits

section Splitting

variable {cs : List Char} {c : Char} {ts : List Token}

/-- How a text falls into marks, numbers and words. A run ends where its kind of character does. -/
inductive Splits : List Char → List Token → Prop
  | nil : Splits [] []
  | separator {c : Char} {cs : List Char} {ts : List Token} (hc : isPart c = false)
      (h : Splits cs ts) : Splits (c :: cs) ts
  | tilde {cs : List Char} {ts : List Token} (h : Splits cs ts) : Splits ('~' :: cs) (.tilde :: ts)
  | caret {cs : List Char} {ts : List Token} (h : Splits cs ts) : Splits ('^' :: cs) (.caret :: ts)
  | number {run cs : List Char} {ts : List Token} (hsome : run ≠ [])
      (hrun : ∀ c ∈ run, c.isDigit = true) (hend : ∀ c ∈ cs.head?, c.isDigit = false)
      (h : Splits cs ts) : Splits (run ++ cs) (.number (stripZeros run) :: ts)
  | letters {run cs : List Char} {ts : List Token} (hsome : run ≠ [])
      (hrun : ∀ c ∈ run, c.isAlpha = true) (hend : ∀ c ∈ cs.head?, c.isAlpha = false)
      (h : Splits cs ts) : Splits (run ++ cs) (.letters run :: ts)

theorem tokensFrom_separator (hc : isPart c = false) (cs : List Char) :
    tokensFrom .none (c :: cs) = tokensFrom .none cs := by
  simp only [isPart, isMark, Char.isAlphanum, Bool.or_eq_false_iff, beq_eq_false_iff_ne] at hc
  simp [tokensFrom, Run.read, Run.close, hc]

theorem tokensFrom_digit (hc : c.isDigit = true) (cs : List Char) :
    tokensFrom .none (c :: cs) = .number (stripZeros ((c :: cs).takeWhile Char.isDigit)) ::
      tokensFrom .none ((c :: cs).dropWhile Char.isDigit) := by
  simp [tokensFrom, Run.read, Run.close, hc, tokensFrom_digits]

theorem tokensFrom_letter (hc : c.isAlpha = true) (cs : List Char) :
    tokensFrom .none (c :: cs) = .letters ((c :: cs).takeWhile Char.isAlpha) ::
      tokensFrom .none ((c :: cs).dropWhile Char.isAlpha) := by
  simp [tokensFrom, Run.read, Run.close, isDigit_of_isAlpha hc, hc, tokensFrom_letters]

theorem eq_tokensFrom_of_splits (h : Splits cs ts) : ts = tokensFrom .none cs := by
  induction h with
  | nil => rfl
  | separator hc _ ih => rw [tokensFrom_separator hc, ih]
  | tilde _ ih => rw [ih]; rfl
  | caret _ ih => rw [ih]; rfl
  | @number run cs ts hsome hrun hend _ ih =>
    obtain ⟨htake, hdrop⟩ := takeWhile_dropWhile_of_run hrun hend
    obtain ⟨c, run, rfl⟩ := List.exists_cons_of_ne_nil hsome
    rw [List.cons_append] at htake hdrop ⊢
    rw [tokensFrom_digit (hrun c List.mem_cons_self), htake, hdrop, ih]
  | @letters run cs ts hsome hrun hend _ ih =>
    obtain ⟨htake, hdrop⟩ := takeWhile_dropWhile_of_run hrun hend
    obtain ⟨c, run, rfl⟩ := List.exists_cons_of_ne_nil hsome
    rw [List.cons_append] at htake hdrop ⊢
    rw [tokensFrom_letter (hrun c List.mem_cons_self), htake, hdrop, ih]

theorem run_spec {p : Char → Bool} (hc : p c = true) (cs : List Char) :
    (c :: cs).takeWhile p ≠ [] ∧ (∀ x ∈ (c :: cs).takeWhile p, p x = true) ∧
      (∀ x ∈ ((c :: cs).dropWhile p).head?, p x = false) ∧
      ((c :: cs).dropWhile p).length < (c :: cs).length := by
  refine ⟨?_, ?_, ?_, ?_⟩
  · rw [List.takeWhile_cons_of_pos hc]
    exact List.cons_ne_nil _ _
  · intro x hx
    exact of_mem_takeWhile hx
  · exact head?_dropWhile p (c :: cs)
  · rw [List.dropWhile_cons_of_pos hc, List.length_cons]
    exact Nat.lt_succ_of_le (List.dropWhile_sublist _).length_le

theorem splits_tokensFrom (cs : List Char) : Splits cs (tokensFrom .none cs) := by
  -- on the length, for a run is read as a whole
  induction hn : cs.length using Nat.strongRecOn generalizing cs with
  | ind n ih =>
    subst hn
    cases cs with
    | nil => exact .nil
    | cons c cs =>
      by_cases hpart : isPart c = true
      · by_cases hdigit : c.isDigit = true
        · obtain ⟨hsome, hrun, hend, hless⟩ := run_spec hdigit cs
          have h := Splits.number hsome hrun hend (ih _ hless _ rfl)
          rwa [List.takeWhile_append_dropWhile, ← tokensFrom_digit hdigit] at h
        · by_cases halpha : c.isAlpha = true
          · obtain ⟨hsome, hrun, hend, hless⟩ := run_spec halpha cs
            have h := Splits.letters hsome hrun hend (ih _ hless _ rfl)
            rwa [List.takeWhile_append_dropWhile, ← tokensFrom_letter halpha] at h
          · have hrest := ih _ (Nat.lt_succ_self cs.length) cs rfl
            have hmark : c = '~' ∨ c = '^' := by
              simpa [isPart, isMark, Char.isAlphanum, hdigit, halpha] using hpart
            rcases hmark with rfl | rfl
            · exact .tilde hrest
            · exact .caret hrest
      · have hskip : isPart c = false := Bool.eq_false_iff.mpr hpart
        rw [tokensFrom_separator hskip]
        exact .separator hskip (ih _ (Nat.lt_succ_self cs.length) cs rfl)

/-- A text falls into tokens in exactly one way. -/
theorem splits_iff : Splits cs ts ↔ ts = tokensFrom .none cs := by
  constructor
  · exact eq_tokensFrom_of_splits
  · intro h
    rw [h]
    exact splits_tokensFrom cs

end Splitting

section Items

/-- The order of tokens and of the end of a text: by kind, then numbers by value and words by
bytes. -/
def itemOrder : Option Token → Option Token → Ordering
  | some (.number a), some (.number b) => Ord.compare (digitsValue a) (digitsValue b)
  | some (.letters a), some (.letters b) =>
    List.compareLex Ord.compare (a.map byteOf) (b.map byteOf)
  | i, j => Ord.compare (rank i) (rank j)

/-- A number is a run of digits less the zeros in front, and a word is a run of letters. -/
def Proper : Option Token → Prop
  | none | some .tilde | some .caret => True
  | some (.letters run) => ∀ c ∈ run, c.isAlpha = true
  | some (.number digits) => ∃ run, digits = stripZeros run ∧ ∀ c ∈ run, c.isDigit = true

theorem proper_of_splits {cs : List Char} {ts : List Token} (h : Splits cs ts) :
    ∀ t ∈ ts, Proper (some t) := by
  induction h with
  | nil => simp
  | separator _ _ ih => exact ih
  | tilde _ ih => exact List.forall_mem_cons.mpr ⟨trivial, ih⟩
  | caret _ ih => exact List.forall_mem_cons.mpr ⟨trivial, ih⟩
  | number _ hrun _ _ ih => exact List.forall_mem_cons.mpr ⟨⟨_, rfl, hrun⟩, ih⟩
  | letters _ hrun _ _ ih => exact List.forall_mem_cons.mpr ⟨hrun, ih⟩

theorem proper_of_mem_items {cs : List Char} {i : Option Token} (h : i ∈ items cs) : Proper i := by
  rw [items, List.mem_append, List.mem_singleton] at h
  rcases h with h | rfl
  · obtain ⟨t, ht, rfl⟩ := List.mem_map.mp h
    exact proper_of_splits (splits_tokensFrom cs) t ht
  · trivial

theorem toNat_byteOf {c : Char} (h : c.isAlpha = true) : (byteOf c).toNat = c.toNat := by
  change (decide (c.val ≥ 'A'.val ∧ c.val ≤ 'Z'.val) ||
    (decide (c.val ≥ 'a'.val) && decide (c.val ≤ 'z'.val))) = true at h
  simp only [Bool.or_eq_true, Bool.and_eq_true, decide_eq_true_eq, UInt32.le_iff_toNat_le,
    ge_iff_le] at h
  have hZ : 'Z'.val.toNat = 90 := rfl
  have hz : 'z'.val.toNat = 122 := rfl
  have hlt : c.toNat < 256 := by
    show c.val.toNat < 256
    omega
  rw [byteOf, UInt8.toNat_ofNat_of_lt' hlt]

theorem compare_bytes (x y : UInt8) : Ord.compare x y = Ord.compare x.toNat y.toNat := by
  show compareOfLessAndEq x y = compareOfLessAndEq x.toNat y.toNat
  have hlt : x < y ↔ x.toNat < y.toNat := Iff.rfl
  have heq : x = y ↔ x.toNat = y.toNat := UInt8.toNat_inj.symm
  simp only [compareOfLessAndEq, hlt, heq]

/-- Letters are ASCII, so words compare by characters as they do by bytes. -/
theorem compareText_eq {a b : List Char} (ha : ∀ c ∈ a, c.isAlpha = true)
    (hb : ∀ c ∈ b, c.isAlpha = true) :
    compareText a b = List.compareLex Ord.compare (a.map byteOf) (b.map byteOf) := by
  induction a generalizing b with
  | nil => cases b <;> rfl
  | cons x a ih =>
    cases b with
    | nil => rfl
    | cons y b =>
      obtain ⟨hx, ha⟩ := List.forall_mem_cons.mp ha
      obtain ⟨hy, hb⟩ := List.forall_mem_cons.mp hb
      have hrest := ih ha hb
      rw [compareText] at hrest ⊢
      rw [List.map_cons, List.map_cons, List.compareLex_cons_cons, List.compareLex_cons_cons,
        hrest, compare_chars, compare_bytes, toNat_byteOf hx, toNat_byteOf hy]

theorem compareItems_eq {i j : Option Token} (hi : Proper i) (hj : Proper j) :
    compareItems i j = itemOrder i j := by
  -- kinds that differ decide by their rank, and marks of one kind are equal
  cases i with
  | none =>
    cases j with
    | none => rfl
    | some t => cases t <;> rfl
  | some t =>
    cases j with
    | none => cases t <;> rfl
    | some v =>
      cases t with
      | tilde => cases v <;> rfl
      | caret => cases v <;> rfl
      | letters x =>
        cases v with
        | letters y => rw [compareItems_letters, compareText_eq hi hj, itemOrder]
        | tilde => rfl
        | caret => rfl
        | number _ => rfl
      | number _ =>
        cases v with
        | number _ =>
          obtain ⟨x, rfl, hx⟩ := hi
          obtain ⟨y, rfl, hy⟩ := hj
          rw [compareItems_digits, compareDigits_eq hx hy, itemOrder, digitsValue_stripZeros,
            digitsValue_stripZeros]
        | tilde => rfl
        | caret => rfl
        | letters _ => rfl

theorem compareLex_congr {α : Type} {cmp cmp' : α → α → Ordering} {as bs : List α}
    (h : ∀ x ∈ as, ∀ y ∈ bs, cmp x y = cmp' x y) :
    List.compareLex cmp as bs = List.compareLex cmp' as bs := by
  induction as generalizing bs with
  | nil => cases bs <;> rfl
  | cons x as ih =>
    cases bs with
    | nil => rfl
    | cons y bs =>
      have hhead := h x List.mem_cons_self y List.mem_cons_self
      have htail := ih fun a ha b hb =>
        h a (List.mem_cons_of_mem _ ha) b (List.mem_cons_of_mem _ hb)
      rw [List.compareLex_cons_cons, List.compareLex_cons_cons, hhead, htail]

theorem eq_of_compareItems {i j : Option Token} (h : compareItems i j = .eq) : i = j := by
  simp only [compareItems, compareLex, Ordering.then_eq_eq, compareOn,
    Std.LawfulEqOrd.compare_eq_iff_eq] at h
  obtain ⟨hrank, -, hcontent⟩ := h
  cases i with
  | none => cases j with
    | none => rfl
    | some v => cases v <;> simp [rank] at hrank
  | some t => cases j with
    | none => cases t <;> simp [rank] at hrank
    | some v => cases t <;> cases v <;> simp_all [rank, content]

instance : Std.LawfulEqCmp compareItems where
  eq_of_compare := eq_of_compareItems

theorem items_injective {as bs : List Char} (h : items as = items bs) :
    tokensFrom .none as = tokensFrom .none bs :=
  List.map_injective_iff.mpr (fun _ _ => Option.some.inj) (List.append_cancel_right h)

theorem compare_eq_eq_iff {a b : String} : compare a b = .eq ↔ tokens a = tokens b := by
  rw [compare_eq]
  constructor
  · intro h
    exact items_injective (Std.LawfulEqCmp.eq_of_compare h)
  · intro h
    rw [tokens, tokens] at h
    rw [items, items, h]
    exact Std.ReflCmp.compare_self

theorem compare_eq_itemOrder (a b : String) :
    compare a b = List.compareLex itemOrder ((tokens a).map some ++ [none])
      ((tokens b).map some ++ [none]) := by
  rw [compare_eq]
  apply compareLex_congr
  intro i hi j hj
  exact compareItems_eq (proper_of_mem_items hi) (proper_of_mem_items hj)

end Items

end Version

namespace Evr

open Version

theorem compare_eq (e f : Evr) : e.compare f = (Ord.compare e.epoch f.epoch).then
    ((Version.compare e.version f.version).then ((Ord.compare e.hasRelease f.hasRelease).then
      (Version.compare e.release f.release))) := by
  rw [compare, compareRelease_eq]

theorem same_iff (e f : Evr) : e.same f = true ↔ e.epoch = f.epoch ∧
    tokens e.version = tokens f.version ∧ e.hasRelease = f.hasRelease ∧
    tokens e.release = tokens f.release := by
  rw [same, beq_iff_eq, compare_eq]
  simp only [Ordering.then_eq_eq, compare_eq_eq_iff, Std.LawfulEqOrd.compare_eq_iff_eq]

end Evr

namespace Version

/-- Version texts are ordered by the tokens that they fall into, item by item, with the end of a
text between a tilde and a caret. This is a total order in which texts are equal if they have the
same tokens. Builds are ordered by epoch, version and release, where no release comes first, and
are equal in this order exactly if they are spellings of one build. -/
theorem compare_by_tokens :
    (∀ (s : String) (row : List Token), Splits s.toList row ↔ row = tokens s) ∧
    (∀ a b : String, compare a b = List.compareLex itemOrder
      ((tokens a).map some ++ [none]) ((tokens b).map some ++ [none])) ∧
    Std.TransCmp compare ∧
    (∀ a b : String, compare a b = .eq ↔ tokens a = tokens b) ∧
    (∀ e f : Evr, e.compare f = (Ord.compare e.epoch f.epoch).then
      ((compare e.version f.version).then ((Ord.compare e.hasRelease f.hasRelease).then
        (compare e.release f.release)))) ∧
    Std.TransCmp Evr.compare ∧
    (∀ e f : Evr, e.compare f = .eq ↔ e.same f = true) ∧
    ∀ e f : Evr, e.same f = true ↔ e.epoch = f.epoch ∧ tokens e.version = tokens f.version ∧
      e.hasRelease = f.hasRelease ∧ tokens e.release = tokens f.release := by
  refine ⟨fun _ _ => splits_iff, compare_eq_itemOrder, inferInstance, fun _ _ => compare_eq_eq_iff,
    Evr.compare_eq, inferInstance, ?_, Evr.same_iff⟩
  intro e f
  rw [Evr.same, beq_iff_eq]

example : compare "1.0~rc1" "1.0" = .lt ∧ compare "1.0" "1.0^git1" = .lt ∧
    compare "1.0^git1" "1.0.a" = .lt ∧ compare "1.0.a" "1_00.007" = .lt := by decide

end Version

end Depsolve
