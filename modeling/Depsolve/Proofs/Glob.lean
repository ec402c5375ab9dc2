import Depsolve.Glob
import Mathlib.Data.List.Forall2
/-!
# Patterns that match only themselves

A text without special characters and a text that is no valid pattern are both
taken literally. The escaped form of a text is read as a pattern again, with a
class of one member in place of each special character, so it is always valid and
stands for that very text.
-/
namespace Depsolve

namespace Glob

variable {c : Char} {cs : List Char} {tokens : List GlobToken} {text : List Char}

/-- A token that fits one character and no other. -/
def StandsFor (token : GlobToken) (c : Char) : Prop :=
  token = .char c ∨ token = .oneOf [(c, c)]

theorem inRanges_self_iff {x : Char} : inRanges [(c, c)] x = true ↔ x = c := by
  simp only [inRanges, List.any_cons, List.any_nil, Bool.or_false, Bool.and_eq_true,
    decide_eq_true_eq]
  constructor
  · rintro ⟨hle, hge⟩
    exact Char.ext (UInt32.le_antisymm hge hle)
  · rintro rfl
    exact ⟨UInt32.le_refl _, UInt32.le_refl _⟩

theorem matchTokens_of_standsFor (h : List.Forall₂ StandsFor tokens cs) :
    matchTokens tokens text = .accepted ↔ text = cs := by
  induction h generalizing text with
  | nil => cases text <;> simp [matchTokens]
  | @cons token c tokens cs htoken _ ih =>
    cases text with
    | nil => rcases htoken with rfl | rfl <;> simp [matchTokens]
    | cons x text =>
      rw [List.cons.injEq, ← ih]
      rcases htoken with rfl | rfl
      · by_cases hx : x = c
        · simp [matchTokens, hx]
        · simp [matchTokens, hx, Ne.symm hx]
      · by_cases hx : x = c
        · simp [matchTokens, hx, inRanges_self_iff.mpr]
        · simp [matchTokens, hx, inRanges_self_iff]

theorem readTokens?_plain {start : Bool} (hquery : c ≠ '?') (hstar : c ≠ '*') (hopen : c ≠ '[') :
    readTokens? (.plain start) (c :: cs) =
      (readTokens? (.plain (c == '/')) cs).map (.char c :: ·) := by
  rw [readTokens?]
  all_goals simp_all

theorem readTokens?_member {start : Bool} (hnot : c ≠ '!') :
    readTokens? (.plain start) ('[' :: c :: ']' :: cs) =
      (readTokens? (.plain false) cs).map (.oneOf [(c, c)] :: ·) := by
  rw [readTokens?, readTokens?, if_neg (by simp), readTokens?, if_pos (by simp)]
  · rfl
  · simp_all

theorem readTokens?_of_forall (start : Bool) (h : ∀ c ∈ cs, c ≠ '?' ∧ c ≠ '*' ∧ c ≠ '[') :
    ∃ tokens, readTokens? (.plain start) cs = some tokens ∧ List.Forall₂ StandsFor tokens cs := by
  induction cs generalizing start with
  | nil => exact ⟨[], by rw [readTokens?], .nil⟩
  | cons c cs ih =>
    obtain ⟨⟨hquery, hstar, hopen⟩, hrest⟩ := List.forall_mem_cons.mp h
    obtain ⟨tokens, hread, htokens⟩ := ih (c == '/') hrest
    refine ⟨.char c :: tokens, ?_, .cons (.inl rfl) htokens⟩
    rw [readTokens?_plain hquery hstar hopen, hread, Option.map_some]

def escapeChar (c : Char) : List Char :=
  if c == '?' || c == '*' || c == '[' || c == ']' then ['[', c, ']'] else [c]

theorem toList_escape (s : String) : (escape s).toList = s.toList.flatMap escapeChar := by
  rw [escape, String.toList_ofList]
  rfl

/-- Escaped characters are read one by one, whatever follows a bracket or a star. -/
theorem readTokens?_escape (start : Bool) (cs : List Char) : ∃ tokens,
    readTokens? (.plain start) (cs.flatMap escapeChar) = some tokens ∧
      List.Forall₂ StandsFor tokens cs := by
  induction cs generalizing start with
  | nil => exact ⟨[], by rw [List.flatMap_nil, readTokens?], .nil⟩
  | cons c cs ih =>
    rw [List.flatMap_cons, escapeChar]
    split
    · rename_i hspecial
      have hnot : c ≠ '!' := by
        rintro rfl
        exact absurd hspecial (by decide)
      obtain ⟨tokens, hread, htokens⟩ := ih false
      refine ⟨.oneOf [(c, c)] :: tokens, ?_, .cons (.inr rfl) htokens⟩
      rw [List.cons_append, List.cons_append, List.cons_append, List.nil_append,
        readTokens?_member hnot, hread, Option.map_some]
    · rename_i hplain
      simp only [Bool.or_eq_true, beq_iff_eq, not_or] at hplain
      obtain ⟨⟨⟨hquery, hstar⟩, hopen⟩, -⟩ := hplain
      obtain ⟨tokens, hread, htokens⟩ := ih (c == '/')
      refine ⟨.char c :: tokens, ?_, .cons (.inl rfl) htokens⟩
      rw [List.cons_append, List.nil_append, readTokens?_plain hquery hstar hopen, hread,
        Option.map_some]

theorem tokens?_escape (s : String) :
    ∃ tokens, tokens? (escape s) = some tokens ∧ List.Forall₂ StandsFor tokens s.toList := by
  obtain ⟨tokens, hread, htokens⟩ := readTokens?_escape true s.toList
  rw [← toList_escape] at hread
  exact ⟨tokens, hread, htokens⟩

theorem accepts_iff_of_standsFor {g : Glob} {s name : String}
    (h : List.Forall₂ StandsFor g.tokens s.toList) : g.accepts name = true ↔ name = s := by
  rw [accepts, beq_iff_eq, matchTokens_of_standsFor h, String.toList_inj]

theorem forall_of_not_isGlob {s : String} (h : isGlob s = false) :
    ∀ c ∈ s.toList, c ≠ '?' ∧ c ≠ '*' ∧ c ≠ '[' := by
  simp only [isGlob, List.any_eq_false, Bool.or_eq_true, beq_iff_eq, not_or] at h
  exact fun c hc => ⟨(h c hc).1.2, (h c hc).1.1, (h c hc).2⟩

/-- What a pattern is compiled to that has no special character or is not valid. -/
theorem compile_standsFor {s : String} (h : isGlob s = false ∨ tokens? s = none) :
    List.Forall₂ StandsFor (compile s).tokens s.toList := by
  cases hread : tokens? s with
  | some tokens =>
    have hplain : isGlob s = false := h.resolve_right (by simp [hread])
    obtain ⟨tokens', hread', htokens⟩ := readTokens?_of_forall true (forall_of_not_isGlob hplain)
    cases hread.symm.trans hread'
    simpa only [compile, hread] using htokens
  | none =>
    obtain ⟨tokens, hvalid, htokens⟩ := tokens?_escape s
    simpa only [compile, hread, hvalid] using htokens

end Glob

namespace NameMatch

/-- The escaped form of a text is a valid pattern, which takes the place of a text that is none.
A text without special characters and one that is no valid pattern match themselves and nothing
else, whether they are compiled or compared. -/
theorem literal_matches_itself (s : String) :
    (∃ tokens, Glob.tokens? (Glob.escape s) = some tokens ∧
      (Glob.tokens? s = none → Glob.compile s = ⟨Glob.escape s, tokens⟩)) ∧
    (isGlob s = false ∨ Glob.tokens? s = none → ∀ name,
      ((ofPattern s).accepts name = true ↔ name = s) ∧
      ((Glob.compile s).accepts name = true ↔ name = s)) := by
  constructor
  · obtain ⟨tokens, hvalid, -⟩ := Glob.tokens?_escape s
    exact ⟨tokens, hvalid, fun hnone => by simp only [Glob.compile, hnone, hvalid]⟩
  · intro h name
    have hcompiled : (Glob.compile s).accepts name = true ↔ name = s :=
      Glob.accepts_iff_of_standsFor (Glob.compile_standsFor h)
    refine ⟨?_, hcompiled⟩
    rw [ofPattern]
    split
    · exact hcompiled
    · rw [accepts, beq_iff_eq, eq_comm]

/-- Brackets directly after brackets, and a star that nothing closes. -/
theorem bracketsAndStar_literal :
    Glob.tokens? "[][*" = none ∧ (Glob.compile "[][*").pattern = "[[][]][[][*]" ∧
    ((ofPattern "[][*").accepts "[][*" = true ∧ (Glob.compile "[][*").accepts "][" = false) ∧
    (isGlob "a]!-z" = false ∧ (Glob.compile "a]!-z").accepts "a]!-z" = true) := by
  have hinvalid : Glob.tokens? "[][*" = none := by decide +kernel
  have hplain : isGlob "a]!-z" = false := by decide +kernel
  have hbrackets := (literal_matches_itself "[][*").2 (.inr hinvalid)
  have hdash := (literal_matches_itself "a]!-z").2 (.inl hplain)
  refine ⟨hinvalid, by decide +kernel, ⟨(hbrackets _).1.mpr rfl, ?_⟩, hplain, (hdash _).2.mpr rfl⟩
  exact Bool.eq_false_iff.mpr fun hmatch => absurd ((hbrackets _).2.mp hmatch) (by decide)

end NameMatch

end Depsolve
