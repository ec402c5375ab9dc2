import Depsolve.Text.Blank
/-!
# Cutting and trimming

A cut at the first mark leaves none in front of it, a cut at the last mark none behind
it. Trimming takes off blanks only, and what it leaves neither begins nor ends with one.
-/
namespace Depsolve

section Cut

variable {mark : Char} {cs before after : List Char}

theorem cutFirst_append (h : mark ∉ before) :
    cutFirst mark (before ++ mark :: after) = some (before, after) := by
  induction before with
  | nil => simp [cutFirst]
  | cons b before ih =>
    simp only [List.mem_cons, not_or] at h
    simp [cutFirst, Ne.symm h.1, ih h.2]

theorem cutFirst_of_notMem (h : mark ∉ cs) : cutFirst mark cs = none := by
  induction cs with
  | nil => rfl
  | cons c cs ih =>
    simp only [List.mem_cons, not_or] at h
    simp [cutFirst, Ne.symm h.1, ih h.2]

theorem cutFirst_eq_some :
    cutFirst mark cs = some (before, after) ↔ cs = before ++ mark :: after ∧ mark ∉ before := by
  constructor
  · intro h
    by_cases hmem : mark ∈ cs
    · obtain ⟨as, bs, rfl, has⟩ := List.eq_append_cons_of_mem hmem
      rw [cutFirst_append has] at h
      cases h
      exact ⟨rfl, has⟩
    · simp [cutFirst_of_notMem hmem] at h
  · intro h
    rw [h.1, cutFirst_append h.2]

theorem cutFirst_eq_none : cutFirst mark cs = none ↔ mark ∉ cs := by
  constructor
  · intro h hmem
    obtain ⟨as, bs, rfl, has⟩ := List.eq_append_cons_of_mem hmem
    simp [cutFirst_append has] at h
  · exact cutFirst_of_notMem

theorem cutLast_of_notMem (h : mark ∉ cs) : cutLast mark cs = none := by
  induction cs with
  | nil => rfl
  | cons c cs ih =>
    simp only [List.mem_cons, not_or] at h
    simp [cutLast, Ne.symm h.1, ih h.2]

theorem cutLast_append (h : mark ∉ after) :
    cutLast mark (before ++ mark :: after) = some (before, after) := by
  induction before with
  | nil => simp [cutLast, cutLast_of_notMem h]
  | cons b before ih => simp [cutLast, ih]

theorem exists_last_of_mem (h : mark ∈ cs) :
    ∃ before after, cs = before ++ mark :: after ∧ mark ∉ after := by
  obtain ⟨as, bs, hsplit, has⟩ := List.eq_append_cons_of_mem (List.mem_reverse.mpr h)
  refine ⟨bs.reverse, as.reverse, ?_, by simpa using has⟩
  have hback := congrArg List.reverse hsplit
  simpa using hback

theorem cutLast_eq_some :
    cutLast mark cs = some (before, after) ↔ cs = before ++ mark :: after ∧ mark ∉ after := by
  constructor
  · intro h
    by_cases hmem : mark ∈ cs
    · obtain ⟨as, bs, rfl, hbs⟩ := exists_last_of_mem hmem
      rw [cutLast_append hbs] at h
      cases h
      exact ⟨rfl, hbs⟩
    · simp [cutLast_of_notMem hmem] at h
  · intro h
    rw [h.1, cutLast_append h.2]

theorem all_bne_iff : cs.all (· != mark) = true ↔ mark ∉ cs := by
  rw [List.all_eq_true]
  constructor
  · intro h hmem
    simpa using h mark hmem
  · intro h c hc
    have hne : c ≠ mark := fun heq => h (heq ▸ hc)
    simpa using hne

end Cut

section Runs

variable {p : Char → Bool} {run cs : List Char}

theorem dropWhile_eq_self (h : ∀ c ∈ cs.head?, p c = false) : cs.dropWhile p = cs := by
  cases cs with
  | nil => rfl
  | cons c cs =>
    have hc := h c rfl
    simp [hc]

theorem takeWhile_dropWhile_of_run (hrun : ∀ c ∈ run, p c = true)
    (hend : ∀ c ∈ cs.head?, p c = false) :
    (run ++ cs).takeWhile p = run ∧ (run ++ cs).dropWhile p = cs := by
  rw [List.takeWhile_append_of_pos hrun, List.dropWhile_append_of_pos hrun]
  cases cs with
  | nil => simp
  | cons c cs =>
    have hc := hend c rfl
    simp [hc]

theorem of_mem_takeWhile {c : Char} (h : c ∈ cs.takeWhile p) : p c = true :=
  List.all_eq_true.mp List.all_takeWhile c h

theorem head?_of_takeWhile_eq_nil (h : cs.takeWhile p = []) : ∀ c ∈ cs.head?, p c = false := by
  cases cs with
  | nil => exact nofun
  | cons c cs =>
    cases hc : p c with
    | false => simpa using hc
    | true => simp [hc] at h

theorem head?_dropWhile (p : Char → Bool) (cs : List Char) :
    ∀ c ∈ (cs.dropWhile p).head?, p c = false := by
  intro c hc
  have hhead := List.head?_dropWhile_not p cs
  rw [Option.mem_def.mp hc] at hhead
  simpa using hhead

end Runs

section Trim

variable {cs front back : List Char}

theorem trimRight_append (hback : ∀ c ∈ back, isBlank c = true) :
    trimRight (cs ++ back) = trimRight cs := by
  have hfront : ∀ c ∈ back.reverse, isBlank c = true := by simpa using hback
  rw [trimRight, List.reverse_append, List.dropWhile_append_of_pos hfront, trimRight]

theorem trimRight_eq_self (h : ∀ c ∈ cs.getLast?, isBlank c = false) : trimRight cs = cs := by
  rw [trimRight, dropWhile_eq_self (by simpa using h), List.reverse_reverse]

theorem exists_trimRight (cs : List Char) :
    ∃ back, cs = trimRight cs ++ back ∧ ∀ c ∈ back, isBlank c = true := by
  refine ⟨(cs.reverse.takeWhile isBlank).reverse, ?_, ?_⟩
  · rw [trimRight, ← List.reverse_append, List.takeWhile_append_dropWhile, List.reverse_reverse]
  · intro c hc
    exact of_mem_takeWhile (List.mem_reverse.mp hc)

theorem getLast?_trimRight (cs : List Char) :
    ∀ c ∈ (trimRight cs).getLast?, isBlank c = false := by
  rw [trimRight, List.getLast?_reverse]
  exact head?_dropWhile isBlank cs.reverse

theorem exists_trimChars (cs : List Char) :
    ∃ front back, cs = front ++ trimChars cs ++ back ∧
      (∀ c ∈ front, isBlank c = true) ∧ ∀ c ∈ back, isBlank c = true := by
  obtain ⟨back, hsplit, hback⟩ := exists_trimRight (cs.dropWhile isBlank)
  refine ⟨cs.takeWhile isBlank, back, ?_, fun c => of_mem_takeWhile, hback⟩
  rw [trimChars, List.append_assoc, ← hsplit, List.takeWhile_append_dropWhile]

theorem head?_trimChars (cs : List Char) : ∀ c ∈ (trimChars cs).head?, isBlank c = false := by
  intro c hc
  obtain ⟨back, hsplit, -⟩ := exists_trimRight (cs.dropWhile isBlank)
  apply head?_dropWhile isBlank cs c
  rw [hsplit, List.head?_append, ← trimChars, Option.mem_def.mp hc]
  rfl

theorem trimChars_eq_self (hfront : ∀ c ∈ cs.head?, isBlank c = false)
    (hback : ∀ c ∈ cs.getLast?, isBlank c = false) : trimChars cs = cs := by
  rw [trimChars, dropWhile_eq_self hfront, trimRight_eq_self hback]

theorem trimChars_eq_self_iff : trimChars cs = cs ↔
    (∀ c ∈ cs.head?, isBlank c = false) ∧ ∀ c ∈ cs.getLast?, isBlank c = false := by
  constructor
  · intro h
    have hfront := head?_trimChars cs
    have hback := getLast?_trimRight (cs.dropWhile isBlank)
    rw [h] at hfront
    rw [← trimChars, h] at hback
    exact ⟨hfront, hback⟩
  · intro h
    exact trimChars_eq_self h.1 h.2

end Trim

end Depsolve
