/-!
# Ways to match

A pattern that can match a text in several ways tries them one after the other. The ways
are listed in this order, so that the match is the first of the list.
-/
namespace Depsolve

/-- The beginnings of a text that lie in a class and are not empty, each with what follows it,
the longest first. -/
def someRuns (p : Char → Bool) : List Char → List (List Char × List Char)
  | [] => []
  | c :: cs =>
    if p c then (someRuns p cs).map (fun way => (c :: way.1, way.2)) ++ [([c], cs)] else []

/-- The beginnings that lie in a class; the empty one comes last. -/
def runs (p : Char → Bool) (cs : List Char) : List (List Char × List Char) :=
  someRuns p cs ++ [([], cs)]

/-- What follows a mark at the front. -/
def past (mark : Char) : List Char → List (List Char)
  | [] => []
  | c :: cs => if c = mark then [cs] else []

/-- The ways that leave nothing. -/
def whole {α : Type} (ways : List (α × List Char)) : List α :=
  ways.filterMap fun way => if way.2.isEmpty then some way.1 else none

theorem head?_eq_of_mem_iff {α : Type} {ways : List α} {o : Option α}
    (h : ∀ way, way ∈ ways ↔ o = some way) : ways.head? = o := by
  cases ways with
  | nil =>
    cases o with
    | none => rfl
    | some a => simpa using (h a).mpr rfl
  | cons a ways => exact ((h a).mp List.mem_cons_self).symm

section Runs

variable {p : Char → Bool} {c mark : Char} {cs run rest : List Char} {α : Type}

theorem mem_someRuns :
    (run, rest) ∈ someRuns p cs ↔ cs = run ++ rest ∧ run ≠ [] ∧ ∀ c ∈ run, p c = true := by
  induction cs generalizing run rest with
  | nil => cases run <;> simp [someRuns]
  | cons c cs ih =>
    by_cases hc : p c = true
    · simp only [someRuns, hc, if_true, List.mem_append, List.mem_map, Prod.exists, ih,
        List.mem_singleton, Prod.mk.injEq]
      cases run with
      | nil => simp
      | cons x run => grind
    · cases run with
      | nil => simp [someRuns, hc]
      | cons x run => grind [someRuns]

theorem mem_runs : (run, rest) ∈ runs p cs ↔ cs = run ++ rest ∧ ∀ c ∈ run, p c = true := by
  rw [runs, List.mem_append, mem_someRuns]
  cases run with
  | nil => simp [eq_comm (a := cs)]
  | cons x run => simp

@[simp] theorem mem_past : rest ∈ past mark cs ↔ cs = mark :: rest := by
  cases cs with
  | nil => simp [past]
  | cons c cs =>
    by_cases hc : c = mark
    · simp [past, hc, eq_comm]
    · simp [past, hc]

@[simp] theorem mem_whole {ways : List (α × List Char)} {a : α} :
    a ∈ whole ways ↔ (a, []) ∈ ways := by
  simp only [whole, List.mem_filterMap]
  constructor
  · rintro ⟨⟨b, rest⟩, hmem, hway⟩
    cases rest with
    | nil => simp_all
    | cons c rest => simp at hway
  · intro h
    exact ⟨(a, []), h, rfl⟩

theorem findSome?_someRuns_cons (hc : p c = true) (f : List Char × List Char → Option α) :
    (someRuns p (c :: cs)).findSome? f =
      ((someRuns p cs).findSome? fun way => f (c :: way.1, way.2)).or (f ([c], cs)) := by
  simp [someRuns, hc, List.findSome?_append, List.findSome?_map, Function.comp_def]

theorem someRuns_of_ends (h : ∀ c ∈ cs.head?, p c = false) : someRuns p cs = [] := by
  cases cs with
  | nil => rfl
  | cons c cs =>
    have hc := h c rfl
    simp [someRuns, hc]

/-- Where no way goes on inside a run, only the longest run counts. -/
theorem flatMap_runs (f : List Char → List α) (h : ∀ c cs, p c = true → f (c :: cs) = []) :
    ((runs p cs).flatMap fun way => f way.2) = f (cs.dropWhile p) := by
  induction cs with
  | nil => simp [runs, someRuns]
  | cons c cs ih =>
    by_cases hc : p c = true
    · rw [List.dropWhile_cons_of_pos hc, ← ih]
      simp [runs, someRuns, hc, List.flatMap_map, h c cs hc]
    · simp [runs, someRuns, hc]

end Runs

end Depsolve
