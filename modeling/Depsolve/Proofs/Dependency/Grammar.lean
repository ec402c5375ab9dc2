import Depsolve.Proofs.Dependency.Ways
/-!
# The grammar of dependency expressions

An expression is read exactly where, without the blanks around it, it is a name, or a name
and a bound on the version. The name and the operator are as long as they can be, and no way
to match that cuts them shorter is read as a dependency.
-/
namespace Depsolve.Dependency

/-- A text behind a name is an operator and a version, with blanks in front of both. The
operator is as long as it can be, and `begins` says how the version may begin. -/
structure BoundText (begins : Char → Bool) (gap op space word : List Char) (c : Comparison)
    (bound : Evr) : Prop where
  gap_blank : ∀ x ∈ gap, isBlank x = true
  op_spelling : String.ofList op ∈ c.spellings
  op_longest : ∀ x ∈ (space ++ word).head?, isOperatorChar x = false
  space_blank : ∀ x ∈ space, isBlank x = true
  word_ne : word ≠ []
  word_chars : ∀ x ∈ word, isBlank x = false
  word_begins : ∀ x ∈ word.head?, begins x = true
  word_version : Evr.parse (String.ofList word) = .ok bound

/-- A text is the longest name in front of it, and then nothing or a bound on the version. -/
def Written (begins : Char → Bool) (t : List Char) (d : Dependency) : Prop :=
  t.takeWhile isNameChar ≠ [] ∧ d.name = String.ofList (t.takeWhile isNameChar) ∧
    match d.constraint with
    | none => t.dropWhile isNameChar = []
    | some (c, bound) => ∃ gap op space word,
      t.dropWhile isNameChar = gap ++ op ++ space ++ word ∧
        BoundText begins gap op space word c bound

/-- A version may not begin like an operator. -/
def beginsVersion (c : Char) : Bool := !isOperatorChar c

section Bound

variable {gap op space word : List Char} {c : Comparison} {bound : Evr}

theorem isOperatorChar_of_spelling (h : String.ofList op ∈ c.spellings) :
    op ≠ [] ∧ ∀ x ∈ op, isOperatorChar x = true := by
  have hall : ∀ s ∈ c.spellings, s.toList ≠ [] ∧ s.toList.all isOperatorChar = true := by
    cases c <;> decide
  simpa using hall _ h

theorem BoundText.constraint (h : BoundText beginsVersion gap op space word c bound) :
    Constraint op space word where
  op_ne := (isOperatorChar_of_spelling h.op_spelling).1
  op_chars := (isOperatorChar_of_spelling h.op_spelling).2
  gap_blank := h.space_blank
  word_ne := h.word_ne
  word_chars := h.word_chars
  word_begins := fun x hx => by simpa [beginsVersion] using h.word_begins x hx

theorem Constraint.boundText (h : Constraint op space word) (hgap : ∀ x ∈ gap, isBlank x = true)
    (hop : Comparison.parse (String.ofList op) = .ok c)
    (hword : Evr.parse (String.ofList word) = .ok bound) :
    BoundText beginsVersion gap op space word c bound where
  gap_blank := hgap
  op_spelling := Comparison.parse_eq_ok.mp hop
  op_longest := by
    cases space with
    | nil => exact h.word_begins
    | cons x space => simpa using isOperatorChar_of_isBlank (h.gap_blank x List.mem_cons_self)
  space_blank := h.gap_blank
  word_ne := h.word_ne
  word_chars := h.word_chars
  word_begins := fun x hx => by simpa [beginsVersion] using h.word_begins x hx
  word_version := hword

end Bound

section Ways

variable {s : String} {d : Dependency} {cs name rest : List Char}
  {constraint : Option (List Char × List Char)}

theorem mem_nameWays : (name, constraint) ∈ nameWays cs ↔ ∃ rest, cs = name ++ rest ∧
    name ≠ [] ∧ (∀ c ∈ name, isNameChar c = true) ∧ readTail? rest = some constraint := by
  simp only [nameWays, List.mem_flatMap, Prod.exists, mem_someRuns, List.mem_map, mem_tailWays,
    Prod.mk.injEq]
  grind

theorem ofWay_bounded_eq_ok {op word : List Char} : ofWay (name, some (op, word)) = .ok d ↔
    ∃ c bound, Comparison.parse (String.ofList op) = .ok c ∧
      Evr.parse (String.ofList word) = .ok bound ∧
      d = { name := String.ofList name, constraint := some (c, bound) } := by
  simp only [ofWay]
  cases Comparison.parse (String.ofList op) with
  | error e => simp [bind, Except.bind]
  | ok c =>
    cases Evr.parse (String.ofList word) with
    | error e => simp [bind, Except.bind]
    | ok bound => simp [bind, Except.bind, pure, Except.pure, eq_comm]

theorem written_of_name (hsome : name ≠ []) (hname : ∀ c ∈ name, isNameChar c = true)
    (begins : Char → Bool) : Written begins name { name := String.ofList name } := by
  have hends : ∀ c ∈ ([] : List Char).head?, isNameChar c = false := nofun
  have hrun := takeWhile_dropWhile_of_run hname hends
  rw [List.append_nil] at hrun
  simp only [Written, hrun.1, hrun.2]
  exact ⟨hsome, trivial, trivial⟩

theorem written_of_bound {begins : Char → Bool} {gap op space word : List Char} {c : Comparison}
    {bound : Evr} (hsome : name ≠ []) (hname : ∀ c ∈ name, isNameChar c = true)
    (h : BoundText begins gap op space word c bound) :
    Written begins (name ++ (gap ++ op ++ space ++ word))
      { name := String.ofList name, constraint := some (c, bound) } := by
  have hop := (isOperatorChar_of_spelling h.op_spelling).1
  have hends : ∀ x ∈ (gap ++ op ++ space ++ word).head?, isNameChar x = false := by
    cases gap with
    | nil =>
      obtain ⟨x, op, rfl⟩ := List.exists_cons_of_ne_nil hop
      simpa using isNameChar_of_spelling h.op_spelling
    | cons x gap => simpa using isNameChar_of_isBlank (h.gap_blank x List.mem_cons_self)
  have hrun := takeWhile_dropWhile_of_run hname hends
  simp only [Written, hrun.1, hrun.2]
  exact ⟨hsome, trivial, gap, op, space, word, rfl, h⟩

theorem written_of_mem_ways {way : Way} (hway : way ∈ ways s.toList) (h : ofWay way = .ok d) :
    Written beginsVersion (trimChars s.toList) d := by
  obtain ⟨name, constraint⟩ := way
  rw [ways_eq] at hway
  obtain ⟨rest, hcs, hsome, hname, hrest⟩ := mem_nameWays.mp hway
  rw [trimChars, hcs]
  cases constraint with
  | none =>
    cases h
    have hlast : ∀ c ∈ name.getLast?, isBlank c = false :=
      fun c hc => isBlank_of_isNameChar (hname c (List.mem_of_getLast? hc))
    rw [trimRight_append (readTail?_eq_plain.mp hrest), trimRight_eq_self hlast]
    exact written_of_name hsome hname beginsVersion
  | some constraint =>
    obtain ⟨op, word⟩ := constraint
    obtain ⟨c, bound, hop, hword, rfl⟩ := ofWay_bounded_eq_ok.mp h
    obtain ⟨gap, space, back, hconstraint, hgap, hback, rfl⟩ := readTail?_eq_bounded.mp hrest
    have hwritten := written_of_bound hsome hname (hconstraint.boundText hgap hop hword)
    have hlast := hconstraint.word_getLast? (name ++ (gap ++ op ++ space))
    rw [← List.append_assoc gap, ← List.append_assoc name, trimRight_append hback]
    rw [List.append_assoc name, List.append_assoc] at hlast
    simp only [List.append_assoc] at hlast hwritten ⊢
    rwa [trimRight_eq_self hlast]

theorem parse_of_written (h : Written beginsVersion (trimChars s.toList) d) : parse s = .ok d := by
  obtain ⟨hsome, hname, hrest⟩ := h
  obtain ⟨name, constraint⟩ := d
  simp only at hname hrest
  subst hname
  have ht : (trimChars s.toList).isEmpty = false := by
    cases ht : trimChars s.toList with
    | nil => simp [ht] at hsome
    | cons c t => rfl
  have hempty : ((trimChars s.toList).takeWhile isNameChar).isEmpty = false := by simpa using hsome
  cases constraint with
  | none => simp [parse, ht, hempty, hrest]
  | some constraint =>
    obtain ⟨c, bound⟩ := constraint
    obtain ⟨gap, op, space, word, hcs, htext⟩ := hrest
    have hop := (isOperatorChar_of_spelling htext.op_spelling).1
    have hdrop := htext.constraint.dropWhile_blank htext.gap_blank []
    have hsplit := htext.constraint.split (List.forall_mem_nil (isBlank · = true))
    rw [List.append_nil, ← List.append_assoc, ← List.append_assoc] at hdrop
    rw [List.append_nil] at hsplit
    have hrest : (gap ++ op ++ space ++ word).isEmpty = false := by simp [hop]
    simp only [parse, ht, hempty, hcs, hrest, hdrop, hsplit, Bool.false_eq_true, if_false]
    exact ofWay_bounded_eq_ok.mpr
      ⟨c, bound, Comparison.parse_eq_ok.mpr htext.op_spelling, htext.word_version, rfl⟩

theorem exists_way_of_parse (h : parse s = .ok d) : ∃ way ∈ ways s.toList, ofWay way = .ok d := by
  rw [parse_eq_first] at h
  split at h
  · cases h
  · cases hfirst : ((ways s.toList).map ofWay).head? with
    | none => rw [hfirst] at h; cases h
    | some first =>
      rw [hfirst, Option.getD_some] at h
      rw [h] at hfirst
      exact List.mem_map.mp (List.mem_of_mem_head? hfirst)

end Ways

/-- The texts of the grammar are read as what they say, and no other text is read: neither
its first way to match nor a later one gives a dependency. -/
theorem parse_eq_ok_iff_written (s : String) (d : Dependency) :
    (parse s = .ok d ↔ Written beginsVersion (trimChars s.toList) d) ∧
      ((∃ way ∈ ways s.toList, ofWay way = .ok d) ↔
        Written beginsVersion (trimChars s.toList) d) := by
  have hway : (∃ way ∈ ways s.toList, ofWay way = .ok d) →
      Written beginsVersion (trimChars s.toList) d := by
    intro h
    obtain ⟨way, hway, hd⟩ := h
    exact written_of_mem_ways hway hd
  constructor
  · exact ⟨fun h => hway (exists_way_of_parse h), parse_of_written⟩
  · exact ⟨hway, fun h => exists_way_of_parse (parse_of_written h)⟩

/-- A version that begins like an operator is refused, though it would be read on its own. -/
theorem not_written_loosely :
    ¬(parse "glibc >= <" = .ok { name := "glibc", constraint := some (.ge, ⟨0, "<", ""⟩) } ↔
      Written (fun _ => true) (trimChars "glibc >= <".toList)
        { name := "glibc", constraint := some (.ge, ⟨0, "<", ""⟩) }) := by
  have hbound : BoundText (fun _ => true) [' '] ['>', '='] [' '] ['<'] .ge ⟨0, "<", ""⟩ := by
    constructor
    case op_spelling => decide
    case word_version => rfl
    all_goals simp [isBlank, isBlankCode, isOperatorChar]
  have hwritten : Written (fun _ => true) (trimChars "glibc >= <".toList)
      { name := "glibc", constraint := some (.ge, ⟨0, "<", ""⟩) } :=
    ⟨by decide, by decide, [' '], ['>', '='], [' '], ['<'], by decide, hbound⟩
  have hrefused : (parse "glibc >= <").toOption = none := by decide
  intro h
  rw [h.mpr hwritten] at hrefused
  cases hrefused

end Depsolve.Dependency
