import Depsolve.Dependency
import Depsolve.Proofs.Text.Backtracking
import Depsolve.Proofs.Text.Cut
/-!
# The ways to read a dependency expression

An expression is matched with `^\s*([^\s<>=!]+)\s*(?:([<>=!~^]+)\s*([^\s<>=!~^]\S*))?\s*$`.
The classes of names and of operators meet in the tilde and the caret, so a text can match
with a shorter name, but then its operator begins with one of these and is none. What is
read is the first way to match.
-/
namespace Depsolve

namespace Comparison

def spellings : Comparison → List String
  | .eq => ["=", "=="]
  | .lt => ["<"]
  | .le => ["<=", "=<"]
  | .gt => [">"]
  | .ge => [">=", "=>"]

theorem parse_eq_ok {s : String} {c : Comparison} : parse s = .ok c ↔ s ∈ c.spellings := by
  constructor
  · intro h
    unfold parse at h
    split at h <;> cases h <;> decide
  · intro h
    cases c <;> simp only [spellings, List.mem_cons, List.not_mem_nil, or_false] at h <;>
      grind [parse]

theorem parse_eq_error {s : String} {e : EvrError} (h : parse s = .error e) :
    e = .invalidComparator s := by
  unfold parse at h
  split at h <;> cases h
  rfl

end Comparison

namespace Dependency

/-- What the two groups have matched. -/
abbrev Way : Type := List Char × Option (List Char × List Char)

/-- `[^\s<>=!~^]\S*` -/
def wordWays : List Char → List (List Char × List Char)
  | [] => []
  | c :: cs =>
    if !isBlank c && !isOperatorChar c then
      (runs (fun c => !isBlank c) cs).map fun (word, rest) => (c :: word, rest)
    else []

/-- `([<>=!~^]+)\s*([^\s<>=!~^]\S*)` -/
def constraintWays (cs : List Char) : List ((List Char × List Char) × List Char) :=
  (someRuns isOperatorChar cs).flatMap fun (op, cs) => (runs isBlank cs).flatMap fun (_, cs) =>
    (wordWays cs).map fun (word, rest) => ((op, word), rest)

/-- The same, or nothing where that does not match. -/
def optionalWays (cs : List Char) : List (Option (List Char × List Char) × List Char) :=
  (constraintWays cs).map (fun (constraint, rest) => (some constraint, rest)) ++ [(none, cs)]

/-- What stands behind the name, up to the end. -/
def tailWays (cs : List Char) : List (Option (List Char × List Char)) :=
  (runs isBlank cs).flatMap fun (_, cs) => (optionalWays cs).flatMap fun (constraint, cs) =>
    (whole (runs isBlank cs)).map fun _ => constraint

def nameWays (cs : List Char) : List Way :=
  (someRuns isNameChar cs).flatMap fun (name, cs) =>
    (tailWays cs).map fun constraint => (name, constraint)

/-- The ways to match an expression, in the order in which they are tried. -/
def ways (cs : List Char) : List Way :=
  (runs isBlank cs).flatMap fun (_, cs) => nameWays cs

/-- What a way to match is read as. -/
def ofWay : Way → Except EvrError Dependency
  | (name, none) => .ok { name := String.ofList name }
  | (name, some (op, word)) => do
    let c ← Comparison.parse (String.ofList op)
    let bound ← Evr.parse (String.ofList word)
    pure { name := String.ofList name, constraint := some (c, bound) }

/-- An operator, blanks and a word that does not begin like an operator. -/
structure Constraint (op gap word : List Char) : Prop where
  op_ne : op ≠ []
  op_chars : ∀ c ∈ op, isOperatorChar c = true
  gap_blank : ∀ c ∈ gap, isBlank c = true
  word_ne : word ≠ []
  word_chars : ∀ c ∈ word, isBlank c = false
  word_begins : ∀ c ∈ word.head?, isOperatorChar c = false

section Classes

variable {c : Char}

theorem isBlank_of_isOperatorChar (h : isOperatorChar c = true) : isBlank c = false := by
  simp only [isOperatorChar, Bool.or_eq_true, beq_iff_eq] at h
  rcases h with ((((rfl | rfl) | rfl) | rfl) | rfl) | rfl <;> decide

theorem isOperatorChar_of_isBlank (h : isBlank c = true) : isOperatorChar c = false := by
  cases hc : isOperatorChar c with
  | false => rfl
  | true => simp [isBlank_of_isOperatorChar hc] at h

theorem isNameChar_of_isBlank (h : isBlank c = true) : isNameChar c = false := by
  simp [isNameChar, h]

theorem isBlank_of_isNameChar (h : isNameChar c = true) : isBlank c = false := by
  cases hblank : isBlank c with
  | false => rfl
  | true => simp [isNameChar_of_isBlank hblank] at h

/-- No comparison is written with a mark in front that can stand in a name. -/
theorem isNameChar_of_spelling {op : List Char} {comparison : Comparison}
    (h : String.ofList op ∈ comparison.spellings) : ∀ c ∈ op.head?, isNameChar c = false := by
  have hall : ∀ s ∈ comparison.spellings, s.toList.head?.all (fun c => !isNameChar c) = true := by
    cases comparison <;> decide
  intro c hc
  simpa [Option.mem_def.mp hc] using hall _ h

end Classes

section Constraint

variable {op gap word back cs rest : List Char}

theorem Constraint.word_getLast? (h : Constraint op gap word) (front : List Char) :
    ∀ c ∈ (front ++ word).getLast?, isBlank c = false := by
  intro c hc
  rw [List.getLast?_append, List.getLast?_eq_some_getLast h.word_ne, Option.some_or] at hc
  exact h.word_chars c (Option.some.inj hc ▸ List.getLast_mem h.word_ne)

theorem Constraint.split (h : Constraint op gap word) (hback : ∀ c ∈ back, isBlank c = true) :
    splitConstraint? (op ++ gap ++ word ++ back) = some (op, word) := by
  obtain ⟨d, op, rfl⟩ := List.exists_cons_of_ne_nil h.op_ne
  obtain ⟨w, word, rfl⟩ := List.exists_cons_of_ne_nil h.word_ne
  have hbegins := h.word_begins w rfl
  have hends : ∀ c ∈ (gap ++ (w :: word ++ back)).head?, isOperatorChar c = false := by
    cases gap with
    | nil => simpa using hbegins
    | cons x gap => simpa using isOperatorChar_of_isBlank (h.gap_blank x List.mem_cons_self)
  have hfirst : ∀ c ∈ (w :: word ++ back).head?, isBlank c = false := by
    simpa using h.word_chars w List.mem_cons_self
  have hafter : ∀ c ∈ back.head?, (!isBlank c) = false :=
    fun c hc => by simp [hback c (List.mem_of_mem_head? hc)]
  have hop := takeWhile_dropWhile_of_run h.op_chars hends
  have hgap := takeWhile_dropWhile_of_run h.gap_blank hfirst
  have hchars : ∀ c ∈ w :: word, (!isBlank c) = true := fun c hc => by simp [h.word_chars c hc]
  have hword := takeWhile_dropWhile_of_run hchars hafter
  have hall : back.all isBlank = true := List.all_eq_true.mpr hback
  simp only [splitConstraint?, List.append_assoc, hop.1, hop.2, hgap.2, hword.1, hword.2, hbegins,
    hall, Bool.not_false, Bool.and_self, if_true]

theorem Constraint.dropWhile_blank (h : Constraint op gap word) {front : List Char}
    (hfront : ∀ c ∈ front, isBlank c = true) (back : List Char) :
    (front ++ (op ++ gap ++ word ++ back)).dropWhile isBlank = op ++ gap ++ word ++ back := by
  obtain ⟨d, op, rfl⟩ := List.exists_cons_of_ne_nil h.op_ne
  have hd := isBlank_of_isOperatorChar (h.op_chars d List.mem_cons_self)
  simp [List.dropWhile_append_of_pos hfront, hd]

theorem splitConstraint?_eq_some : splitConstraint? cs = some (op, word) ↔
    ∃ gap, Constraint op gap word ∧ trimRight cs = op ++ gap ++ word := by
  constructor
  · intro h
    let behind := cs.dropWhile isOperatorChar
    let words := behind.dropWhile isBlank
    have hop : ∀ c ∈ cs.takeWhile isOperatorChar, isOperatorChar c = true :=
      fun c => of_mem_takeWhile
    have hgap : ∀ c ∈ behind.takeWhile isBlank, isBlank c = true := fun c => of_mem_takeWhile
    have hword : ∀ c ∈ words.takeWhile (fun c => !isBlank c), isBlank c = false :=
      fun c hc => by simpa using of_mem_takeWhile hc
    have hcs : cs = cs.takeWhile isOperatorChar ++ behind.takeWhile isBlank ++
        words.takeWhile (fun c => !isBlank c) ++ words.dropWhile (fun c => !isBlank c) := by
      simp [behind, words]
    simp only [splitConstraint?] at h
    split at h
    · next d op w word hopEq hwordEq =>
      split at h
      · next hends =>
        rw [hopEq, hwordEq] at h
        cases h
        simp only [Bool.and_eq_true, Bool.not_eq_true', List.all_eq_true] at hends
        rw [hopEq] at hop hcs
        rw [hwordEq] at hword hcs
        have hconstraint : Constraint (d :: op) (behind.takeWhile isBlank) (w :: word) :=
          ⟨by simp, hop, hgap, by simp, hword, by simpa using hends.1⟩
        refine ⟨_, hconstraint, ?_⟩
        rw [hcs, trimRight_append hends.2, trimRight_eq_self (hconstraint.word_getLast? _)]
      · cases h
    · cases h
  · intro h
    obtain ⟨gap, hconstraint, htrim⟩ := h
    obtain ⟨back, hcs, hback⟩ := exists_trimRight cs
    rw [hcs, htrim]
    exact hconstraint.split hback

theorem mem_wordWays : (word, rest) ∈ wordWays cs ↔ cs = word ++ rest ∧ word ≠ [] ∧
    (∀ c ∈ word, isBlank c = false) ∧ ∀ c ∈ word.head?, isOperatorChar c = false := by
  cases cs with
  | nil => cases word <;> simp [wordWays]
  | cons c cs =>
    by_cases hc : isBlank c = false ∧ isOperatorChar c = false
    · simp only [wordWays, hc.1, hc.2, Bool.not_false, Bool.and_self, if_true, List.mem_map,
        Prod.exists, mem_runs, Prod.mk.injEq]
      cases word with
      | nil => simp
      | cons w word => grind
    · cases word with
      | nil => simp [wordWays]
      | cons w word => grind [wordWays]

theorem mem_constraintWays : ((op, word), rest) ∈ constraintWays cs ↔
    ∃ gap, Constraint op gap word ∧ cs = op ++ gap ++ word ++ rest := by
  simp only [constraintWays, List.mem_flatMap, Prod.exists, mem_someRuns, mem_runs, List.mem_map,
    mem_wordWays, Prod.mk.injEq]
  constructor
  · intro h
    obtain ⟨op, _, ⟨rfl, hop⟩, gap, _, ⟨rfl, hgap⟩, word, rest, ⟨rfl, hword⟩, ⟨rfl, rfl⟩, rfl⟩ := h
    refine ⟨gap, ⟨hop.1, hop.2, hgap, hword.1, hword.2.1, hword.2.2⟩, ?_⟩
    simp only [List.append_assoc]
  · intro h
    obtain ⟨gap, h, rfl⟩ := h
    simp only [List.append_assoc]
    exact ⟨op, _, ⟨rfl, h.op_ne, h.op_chars⟩, gap, _, ⟨rfl, h.gap_blank⟩, word, rest,
      ⟨rfl, h.word_ne, h.word_chars, h.word_begins⟩, ⟨rfl, rfl⟩, rfl⟩

end Constraint

/-- What the ways behind a name come to: blanks only, or one constraint between blanks. -/
def readTail? (cs : List Char) : Option (Option (List Char × List Char)) :=
  if cs.all isBlank then some none else (splitConstraint? (cs.dropWhile isBlank)).map some

section Tail

variable {cs op word : List Char} {constraint : Option (List Char × List Char)}

theorem readTail?_eq_plain : readTail? cs = some none ↔ ∀ c ∈ cs, isBlank c = true := by
  rw [readTail?, ← List.all_eq_true]
  by_cases hblank : cs.all isBlank = true
  · simp [hblank]
  · simp [hblank, Option.map_eq_some_iff]

theorem readTail?_eq_bounded : readTail? cs = some (some (op, word)) ↔
    ∃ front gap back, Constraint op gap word ∧ (∀ c ∈ front, isBlank c = true) ∧
      (∀ c ∈ back, isBlank c = true) ∧ cs = front ++ (op ++ gap ++ word ++ back) := by
  constructor
  · intro h
    rw [readTail?] at h
    split at h
    · cases h
    · obtain ⟨_, hsplit, heq⟩ := Option.map_eq_some_iff.mp h
      cases heq
      obtain ⟨gap, hconstraint, htrim⟩ := splitConstraint?_eq_some.mp hsplit
      obtain ⟨front, back, hcs, hfront, hback⟩ := exists_trimChars cs
      rw [trimChars, htrim, List.append_assoc] at hcs
      exact ⟨front, gap, back, hconstraint, hfront, hback, hcs⟩
  · intro h
    obtain ⟨front, gap, back, hconstraint, hfront, hback, rfl⟩ := h
    have hsome : ¬(front ++ (op ++ gap ++ word ++ back)).all isBlank = true := by
      obtain ⟨d, op, rfl⟩ := List.exists_cons_of_ne_nil hconstraint.op_ne
      simp [isBlank_of_isOperatorChar (hconstraint.op_chars d List.mem_cons_self)]
    rw [readTail?, if_neg hsome, hconstraint.dropWhile_blank hfront, hconstraint.split hback]
    rfl

theorem mem_optionalWays_none {rest : List Char} :
    (none, rest) ∈ optionalWays cs ↔ cs = rest := by
  simp [optionalWays, eq_comm]

theorem mem_optionalWays_some {rest : List Char} : (some (op, word), rest) ∈ optionalWays cs ↔
    ∃ gap, Constraint op gap word ∧ cs = op ++ gap ++ word ++ rest := by
  rw [← mem_constraintWays]
  simp [optionalWays]

theorem mem_tailWays_iff : constraint ∈ tailWays cs ↔ ∃ front rest back, cs = front ++ rest ∧
    (∀ c ∈ front, isBlank c = true) ∧ (∀ c ∈ back, isBlank c = true) ∧
      (constraint, back) ∈ optionalWays rest := by
  simp only [tailWays, List.mem_flatMap, Prod.exists, mem_runs, List.mem_map, mem_whole,
    List.append_nil]
  constructor
  · intro h
    obtain ⟨front, rest, ⟨hcs, hfront⟩, _, back, hway, _, ⟨rfl, hback⟩, rfl⟩ := h
    exact ⟨front, rest, back, hcs, hfront, hback, hway⟩
  · intro h
    obtain ⟨front, rest, back, hcs, hfront, hback, hway⟩ := h
    exact ⟨front, rest, ⟨hcs, hfront⟩, constraint, back, hway, back, ⟨rfl, hback⟩, rfl⟩

theorem mem_tailWays : constraint ∈ tailWays cs ↔ readTail? cs = some constraint := by
  rw [mem_tailWays_iff]
  cases constraint with
  | none =>
    simp only [readTail?_eq_plain, mem_optionalWays_none]
    constructor
    · intro h
      obtain ⟨front, rest, _, rfl, hfront, hback, rfl⟩ := h
      simpa [or_imp, forall_and] using ⟨hfront, hback⟩
    · intro h
      exact ⟨[], cs, cs, rfl, nofun, h, rfl⟩
  | some constraint =>
    obtain ⟨op, word⟩ := constraint
    simp only [readTail?_eq_bounded, mem_optionalWays_some]
    constructor
    · intro h
      obtain ⟨front, _, back, rfl, hfront, hback, gap, hconstraint, rfl⟩ := h
      exact ⟨front, gap, back, hconstraint, hfront, hback, rfl⟩
    · intro h
      obtain ⟨front, gap, back, hconstraint, hfront, hback, rfl⟩ := h
      exact ⟨front, _, back, rfl, hfront, hback, gap, hconstraint, rfl⟩

end Tail

section Names

variable {c : Char} {cs rest op word : List Char}

theorem splitConstraint?_of_not (hc : isOperatorChar c = false) :
    splitConstraint? (c :: cs) = none := by
  simp [splitConstraint?, hc]

theorem parse_op_of_isNameChar (hc : isNameChar c = true)
    (h : splitConstraint? (c :: cs) = some (op, word)) :
    Comparison.parse (String.ofList op) = .error (.invalidComparator (String.ofList op)) := by
  cases hparse : Comparison.parse (String.ofList op) with
  | error e => rw [Comparison.parse_eq_error hparse]
  | ok comparison =>
    obtain ⟨gap, hconstraint, htrim⟩ := splitConstraint?_eq_some.mp h
    obtain ⟨back, hsplit, -⟩ := exists_trimRight (c :: cs)
    obtain ⟨d, op, rfl⟩ := List.exists_cons_of_ne_nil hconstraint.op_ne
    rw [htrim] at hsplit
    have hd := isNameChar_of_spelling (Comparison.parse_eq_ok.mp hparse) d rfl
    rw [← (List.cons.inj hsplit).1, hc] at hd
    cases hd

/-- With a shorter name a text can only match with an operator that is none. -/
theorem ofWay_of_shorter (hc : isNameChar c = true) (name cs : List Char) :
    ((readTail? (c :: cs)).map fun constraint => ofWay (name, constraint)) =
      (if isOperatorChar c then (splitConstraint? (c :: cs)).map Prod.fst else none).map
        fun op => .error (.invalidComparator (String.ofList op)) := by
  have hblank := isBlank_of_isNameChar hc
  have hread : readTail? (c :: cs) = (splitConstraint? (c :: cs)).map some := by
    simp [readTail?, hblank]
  rw [hread]
  cases hop : isOperatorChar c with
  | false => simp [splitConstraint?_of_not hop]
  | true =>
    cases hsplit : splitConstraint? (c :: cs) with
    | none => rfl
    | some constraint =>
      obtain ⟨op, word⟩ := constraint
      simp [ofWay, parse_op_of_isNameChar hc hsplit, bind, Except.bind]

theorem strayOperator?_cons : strayOperator? rest (c :: cs) = (strayOperator? rest cs).or
    (if isOperatorChar c then (splitConstraint? (c :: (cs ++ rest))).map Prod.fst else none) := by
  rw [strayOperator?]
  cases strayOperator? rest cs <;> rfl

theorem findSome?_names (hname : ∀ x ∈ c :: cs, isNameChar x = true)
    (hrest : ∀ x ∈ rest.head?, isNameChar x = false) (before : List Char) :
    ((someRuns isNameChar (c :: (cs ++ rest))).findSome? fun way =>
      (readTail? way.2).map fun constraint => ofWay (before ++ way.1, constraint)) =
    ((readTail? rest).map fun constraint => ofWay (before ++ c :: cs, constraint)).or
      ((strayOperator? rest cs).map fun op => .error (.invalidComparator (String.ofList op))) := by
  -- on the name behind its first character; `before` is what has been passed of it
  induction cs generalizing c before with
  | nil =>
    rw [findSome?_someRuns_cons (hname c List.mem_cons_self), List.nil_append,
      someRuns_of_ends hrest]
    simp [strayOperator?]
  | cons d cs ih =>
    have hd : isNameChar d = true := hname d (by simp)
    have hlonger := ih (fun x hx => hname x (List.mem_cons_of_mem c hx)) (before ++ [c])
    simp only [List.append_assoc, List.singleton_append] at hlonger
    rw [findSome?_someRuns_cons (hname c List.mem_cons_self), List.cons_append, hlonger,
      ofWay_of_shorter hd, strayOperator?_cons, Option.map_or, Option.or_assoc]

theorem nameWays_of_ends (h : ∀ x ∈ cs.head?, isNameChar x = false) : nameWays cs = [] := by
  rw [nameWays, someRuns_of_ends h]
  rfl

theorem ways_eq (cs : List Char) : ways cs = nameWays (cs.dropWhile isBlank) :=
  flatMap_runs nameWays fun _ _ hc => nameWays_of_ends (by simpa using isNameChar_of_isBlank hc)

theorem head?_nameWays (cs : List Char) :
    ((nameWays cs).map ofWay).head? = (someRuns isNameChar cs).findSome? fun way =>
      (readTail? way.2).map fun constraint => ofWay (way.1, constraint) := by
  have hone : ∀ rest, (tailWays rest).head? = readTail? rest :=
    fun rest => head?_eq_of_mem_iff fun _ => mem_tailWays
  simp [nameWays, List.head?_flatMap, hone, Function.comp_def, List.map_flatMap]

end Names

section Blanks

variable {cs rest back : List Char} (hback : ∀ c ∈ back, isBlank c = true)
include hback

theorem splitConstraint?_append : splitConstraint? (cs ++ back) = splitConstraint? cs := by
  apply Option.ext
  intro constraint
  rw [splitConstraint?_eq_some, splitConstraint?_eq_some, trimRight_append hback]

theorem strayOperator?_append : strayOperator? (rest ++ back) cs = strayOperator? rest cs := by
  induction cs with
  | nil => rfl
  | cons c cs ih =>
    rw [strayOperator?_cons, strayOperator?_cons, ih, ← List.append_assoc, ← List.cons_append,
      splitConstraint?_append hback]

theorem readTail?_append : readTail? (cs ++ back) = readTail? cs := by
  have hall : back.all isBlank = true := List.all_eq_true.mpr hback
  rw [readTail?, readTail?, List.all_append, hall, Bool.and_true, List.dropWhile_append]
  split
  · rfl
  · next hblank =>
    have hsome : cs.dropWhile isBlank ≠ [] := by
      intro hnil
      have hrun := List.takeWhile_append_dropWhile (p := isBlank) (l := cs)
      rw [hnil, List.append_nil] at hrun
      exact hblank (hrun ▸ List.all_takeWhile)
    simp [hsome, splitConstraint?_append hback]

end Blanks

theorem readTail?_of_getLast? {rest : List Char} (hsome : rest ≠ [])
    (hlast : ∀ c ∈ rest.getLast?, isBlank c = false) :
    readTail? rest = (splitConstraint? (rest.dropWhile isBlank)).map some := by
  have hall : rest.all isBlank = false := by
    apply List.all_eq_false.mpr
    refine ⟨rest.getLast hsome, List.getLast_mem hsome, ?_⟩
    simp [hlast _ (List.getLast?_eq_some_getLast hsome)]
  simp [readTail?, hall]

/-- The first way with a given longest name in front, and any blanks behind the text. -/
theorem head?_nameWays_append {c : Char} {cs rest back : List Char}
    (hname : ∀ x ∈ c :: cs, isNameChar x = true)
    (hrest : ∀ x ∈ rest.head?, isNameChar x = false) (hback : ∀ x ∈ back, isBlank x = true) :
    ((nameWays (c :: (cs ++ (rest ++ back)))).map ofWay).head? =
      ((readTail? rest).map fun constraint => ofWay (c :: cs, constraint)).or
        ((strayOperator? rest cs).map
          fun op => .error (.invalidComparator (String.ofList op))) := by
  have hends : ∀ x ∈ (rest ++ back).head?, isNameChar x = false := by
    cases rest with
    | nil => exact fun x hx => isNameChar_of_isBlank (hback x (List.mem_of_mem_head? hx))
    | cons r rest => simpa using hrest
  have hfirst := findSome?_names hname hends []
  simp only [List.nil_append, readTail?_append hback, strayOperator?_append hback] at hfirst
  rw [head?_nameWays, hfirst]

theorem parse_eq_first (s : String) : parse s =
    if (trimChars s.toList).isEmpty then .error (.emptyName s)
    else ((ways s.toList).map ofWay).head?.getD (.error (.invalidDependency s)) := by
  obtain ⟨back, hdrop, hback⟩ := exists_trimRight (s.toList.dropWhile isBlank)
  have hlast := getLast?_trimRight (s.toList.dropWhile isBlank)
  rw [ways_eq, hdrop, parse]
  rw [← trimChars] at hlast ⊢
  generalize trimChars s.toList = t at hlast
  have hends := head?_dropWhile isNameChar t
  cases hname : t.takeWhile isNameChar with
  | nil =>
    cases t with
    | nil => rfl
    | cons c cs =>
      have hc := head?_of_takeWhile_eq_nil hname
      rw [nameWays_of_ends (by simpa using hc)]
      rfl
  | cons c cs =>
    have hsplit : t = c :: (cs ++ t.dropWhile isNameChar) := by
      rw [← List.cons_append, ← hname, List.takeWhile_append_dropWhile]
    have hchars : ∀ x ∈ c :: cs, isNameChar x = true := fun x hx => of_mem_takeWhile (hname ▸ hx)
    generalize t.dropWhile isNameChar = rest at hends hsplit
    subst hsplit
    rw [List.cons_append, List.append_assoc, head?_nameWays_append hchars hends hback]
    cases rest with
    | nil => simp [readTail?, ofWay]
    | cons r rest =>
      have hlast' : ∀ x ∈ (r :: rest).getLast?, isBlank x = false := by
        rw [← List.cons_append, List.getLast?_append] at hlast
        simpa [List.getLast?_eq_some_getLast (List.cons_ne_nil r rest)] using hlast
      rw [readTail?_of_getLast? (List.cons_ne_nil r rest) hlast']
      cases splitConstraint? ((r :: rest).dropWhile isBlank) with
      | some constraint => rfl
      | none => cases hstray : strayOperator? (r :: rest) cs <;> simp [hstray]

end Dependency

end Depsolve
