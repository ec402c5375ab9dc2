import Depsolve.Proofs.Version.Order
/-!
# Density of the version order

A tilde behind a version makes it smaller and a caret makes it larger, each by as
little as any text can. So the order has no ends, and between two versions that
differ there is always another one.
-/
namespace Depsolve.Version

section Marks

variable {c : Char} {t : Token}

theorem tokensFrom_concat (hread : ∀ open_ : Run, open_.read c = (open_.close ++ [t], .none))
    (open_ : Run) (cs : List Char) :
    tokensFrom open_ (cs ++ [c]) = tokensFrom open_ cs ++ [t] := by
  induction cs generalizing open_ with
  | nil => simp [tokensFrom, hread, Run.close]
  | cons x cs ih => simp [tokensFrom, ih]

theorem items_concat (hread : ∀ open_ : Run, open_.read c = (open_.close ++ [t], .none))
    (cs : List Char) :
    items (cs ++ [c]) = (tokensFrom .none cs).map some ++ [some t, none] := by
  simp [items, tokensFrom_concat hread]

theorem read_tilde (open_ : Run) : open_.read '~' = (open_.close ++ [.tilde], .none) := rfl

theorem read_caret (open_ : Run) : open_.read '^' = (open_.close ++ [.caret], .none) := rfl

end Marks

theorem compareLex_append_left {α : Type} {cmp : α → α → Ordering} [Std.ReflCmp cmp]
    (front as bs : List α) :
    List.compareLex cmp (front ++ as) (front ++ bs) = List.compareLex cmp as bs := by
  induction front with
  | nil => rfl
  | cons x front ih =>
    have hself : cmp x x = .eq := Std.ReflCmp.compare_self
    rw [List.cons_append, List.cons_append, List.compareLex_cons_cons, hself, ih]
    rfl

theorem compare_tilde (s : String) : compare (s ++ "~") s = .lt := by
  rw [compare_eq, String.toList_append]
  show List.compareLex compareItems (items (s.toList ++ ['~'])) (items s.toList) = .lt
  rw [items_concat read_tilde, items, compareLex_append_left]
  rfl

theorem compare_caret (s : String) : compare s (s ++ "^") = .lt := by
  rw [compare_eq, String.toList_append]
  show List.compareLex compareItems (items s.toList) (items (s.toList ++ ['^'])) = .lt
  rw [items_concat read_caret, items, compareLex_append_left]
  rfl

/-- Where a row is below another, it still is with a caret behind it, or the other with a
tilde. The caret goes wrong only if the upper row goes on where the lower one ends. -/
theorem compareLex_mark {ts us : List Token}
    (h : List.compareLex compareItems (ts.map some ++ [none]) (us.map some ++ [none]) = .lt) :
    List.compareLex compareItems (ts.map some ++ [some .caret, none]) (us.map some ++ [none]) =
        .lt ∨
      List.compareLex compareItems (ts.map some ++ [none]) (us.map some ++ [some .tilde, none]) =
        .lt := by
  induction ts generalizing us with
  | nil =>
    cases us with
    | nil => exact absurd h (by decide)
    | cons u us =>
      -- a row that ends is below the rest of any other
      rw [List.map_nil, List.nil_append, List.map_cons, List.cons_append,
        List.compareLex_cons_cons, Ordering.then_eq_lt] at h
      refine .inr ?_
      rw [List.map_nil, List.nil_append, List.map_cons, List.cons_append,
        List.compareLex_cons_cons, Ordering.then_eq_lt]
      exact h.imp_right fun heq => ⟨heq.1, by cases us <;> rfl⟩
  | cons t ts ih =>
    cases us with
    | nil =>
      cases t with
      | tilde => exact .inl rfl
      | caret | letters run | number digits => exact Ordering.noConfusion h
    | cons u us =>
      simp only [List.map_cons, List.cons_append, List.compareLex_cons_cons,
        Ordering.then_eq_lt] at h ⊢
      rcases h with hlt | ⟨heq, hrest⟩
      · exact .inl (.inl hlt)
      · rcases ih hrest with hcaret | htilde
        · exact .inl (.inr ⟨heq, hcaret⟩)
        · exact .inr (.inr ⟨heq, htilde⟩)

theorem exists_between {u v : String} (h : compare u v = .lt) :
    ∃ w : String, w ≠ "" ∧ compare u w = .lt ∧ compare w v = .lt := by
  have hrows := h
  rw [compare_eq] at hrows
  rcases compareLex_mark hrows with hcaret | htilde
  · refine ⟨u ++ "^", by simp, compare_caret u, ?_⟩
    rw [compare_eq, String.toList_append]
    show List.compareLex compareItems (items (u.toList ++ ['^'])) (items v.toList) = .lt
    rwa [items_concat read_caret]
  · refine ⟨v ++ "~", by simp, ?_, compare_tilde v⟩
    rw [compare_eq, String.toList_append]
    show List.compareLex compareItems (items u.toList) (items (v.toList ++ ['~'])) = .lt
    rwa [items_concat read_tilde]

end Depsolve.Version
