import Depsolve.Evr
import Depsolve.Proofs.Text.Cut
import Depsolve.Proofs.Text.Numeral
/-!
# Which builds survive printing

A printed build is trimmed and cut again at its first colon and its last dash. So the
parts are read back exactly where the printed text has no other colon in front, no other
dash behind and no blank at its ends.
-/
namespace Depsolve.Evr

section Reading

variable {s : String} {e : Evr} {epoch : UInt32} {cs rest version release : List Char}

theorem readEpoch?_eq_some : readEpoch? cs = some (epoch, rest) ↔
    (epoch = 0 ∧ ':' ∉ cs ∧ cs = rest) ∨ (epoch = 0 ∧ cs = ':' :: rest) ∨
      ∃ digits, digits ≠ [] ∧ ':' ∉ digits ∧ cs = digits ++ ':' :: rest ∧
        readUInt32? digits = some epoch := by
  constructor
  · intro h
    rw [readEpoch?] at h
    split at h
    · next hcut =>
      cases h
      exact .inl ⟨rfl, cutFirst_eq_none.mp hcut, rfl⟩
    · next hcut =>
      cases h
      exact .inr (.inl ⟨rfl, (cutFirst_eq_some.mp hcut).1⟩)
    · next digits _ hsome hcut =>
      obtain ⟨epoch, hepoch, heq⟩ := Option.map_eq_some_iff.mp h
      cases heq
      obtain ⟨hcs, hcolon⟩ := cutFirst_eq_some.mp hcut
      exact .inr (.inr ⟨digits, hsome, hcolon, hcs, hepoch⟩)
  · intro h
    rcases h with ⟨rfl, hcolon, rfl⟩ | ⟨rfl, rfl⟩ | ⟨digits, hsome, hcolon, rfl, hepoch⟩
    · simp [readEpoch?, cutFirst_of_notMem hcolon]
    · simp [readEpoch?, cutFirst]
    · obtain ⟨d, digits, rfl⟩ := List.exists_cons_of_ne_nil hsome
      rw [readEpoch?, cutFirst_append hcolon]
      simp [hepoch]

theorem cutRelease_eq_iff : (cutLast '-' rest).getD (rest, []) = (version, release) ↔
    (rest = version ++ '-' :: release ∧ '-' ∉ release) ∨
      (rest = version ∧ release = [] ∧ '-' ∉ version) := by
  by_cases hdash : '-' ∈ rest
  · obtain ⟨before, after, rfl, hafter⟩ := exists_last_of_mem hdash
    rw [cutLast_append hafter, Option.getD_some, ← Option.some.injEq, ← cutLast_append hafter,
      cutLast_eq_some]
    grind
  · rw [cutLast_of_notMem hdash]
    grind

theorem parse_eq_ok : parse s = .ok e ↔ e.version ≠ "" ∧
    ∃ rest, readEpoch? (trimChars s.toList) = some (e.epoch, rest) ∧
      (cutLast '-' rest).getD (rest, []) = (e.version.toList, e.release.toList) := by
  constructor
  · intro h
    rw [parse] at h
    split at h
    · cases h
    · next epoch rest hepoch =>
      cases hcut : (cutLast '-' rest).getD (rest, []) with
      | mk version release =>
        simp only [hcut] at h
        split at h
        · cases h
        · next hversion =>
          cases h
          exact ⟨by simpa using hversion, rest, hepoch, by simp [hcut]⟩
  · intro h
    obtain ⟨hversion, rest, hepoch, hcut⟩ := h
    simp [parse, hepoch, hcut, hversion]

end Reading

def body (e : Evr) : List Char :=
  e.version.toList ++ if e.hasRelease then '-' :: e.release.toList else []

/-- The parts of a build can be told apart in its text. -/
structure Printable (e : Evr) : Prop where
  version_ne : e.version ≠ ""
  release_dash : '-' ∉ e.release.toList
  version_dash : e.release = "" → '-' ∉ e.version.toList
  colon : e.epoch = 0 → ':' ∉ e.version.toList ∧ ':' ∉ e.release.toList
  front : e.epoch = 0 → ∀ c ∈ e.version.toList.head?, isBlank c = false
  back : ∀ c ∈ e.text.toList.getLast?, isBlank c = false

section Printing

variable {e : Evr} {rest : List Char}

theorem body_of_release_eq (h : e.release = "") : e.body = e.version.toList := by
  simp [body, hasRelease, h]

theorem body_of_release_ne (h : e.release ≠ "") :
    e.body = e.version.toList ++ '-' :: e.release.toList := by
  simp [body, hasRelease, h]

theorem toList_text_of_eq (h : e.epoch = 0) : e.text.toList = e.body := by
  cases hrelease : e.hasRelease <;> simp [text, body, h, hrelease]

theorem toList_text_of_ne (h : e.epoch ≠ 0) :
    e.text.toList = Nat.toDigits 10 e.epoch.toNat ++ ':' :: e.body := by
  cases hrelease : e.hasRelease <;> simp [text, body, h, hrelease]

theorem notMem_body {mark : Char} (hmark : mark ≠ '-') :
    mark ∉ e.body ↔ mark ∉ e.version.toList ∧ mark ∉ e.release.toList := by
  by_cases hrelease : e.release = ""
  · simp [body_of_release_eq hrelease, hrelease]
  · simp [body_of_release_ne hrelease, hmark]

theorem colon_notMem_toDigits (n : Nat) : ':' ∉ Nat.toDigits 10 n :=
  fun hcolon => absurd (isDigit_of_mem_toDigits hcolon) (by decide)

theorem cutRelease_body : (cutLast '-' e.body).getD (e.body, []) =
    (e.version.toList, e.release.toList) ↔
      '-' ∉ e.release.toList ∧ (e.release = "" → '-' ∉ e.version.toList) := by
  rw [cutRelease_eq_iff]
  by_cases hrelease : e.release = ""
  · simp [body_of_release_eq hrelease, hrelease]
  · simp [body_of_release_ne hrelease, hrelease]

/-- A text whose cut gives the parts begins with the two parts as they are printed: only a
dash in front of an empty release can follow. -/
theorem body_prefix_of_cutRelease (h : (cutLast '-' rest).getD (rest, []) =
    (e.version.toList, e.release.toList)) : e.body <+: rest := by
  by_cases hrelease : e.release = ""
  · rw [body_of_release_eq hrelease]
    rcases cutRelease_eq_iff.mp h with ⟨rfl, -⟩ | ⟨rfl, -⟩
    · exact List.prefix_append _ _
    · exact List.prefix_rfl
  · rw [body_of_release_ne hrelease]
    rcases cutRelease_eq_iff.mp h with ⟨rfl, -⟩ | ⟨-, hnone, -⟩
    · exact List.prefix_rfl
    · exact absurd (String.toList_eq_nil_iff.mp hnone) hrelease

theorem readEpoch?_text : readEpoch? e.text.toList = some (e.epoch, e.body) ↔
    (e.epoch = 0 → ':' ∉ e.version.toList ∧ ':' ∉ e.release.toList) := by
  rw [readEpoch?_eq_some, ← notMem_body (by decide)]
  by_cases hepoch : e.epoch = 0
  · have hshort : ∀ digits, e.body ≠ digits ++ ':' :: e.body := by
      intro digits heq
      have hlength := congrArg List.length heq
      simp at hlength
      omega
    simp [toList_text_of_eq hepoch, hepoch, hshort]
  · simp only [toList_text_of_ne hepoch, hepoch, false_and, false_or, false_implies, iff_true]
    exact ⟨_, Nat.toDigits_ne_nil, colon_notMem_toDigits _, rfl, readUInt32?_toDigits _⟩

theorem head?_text (hversion : e.version ≠ "") : (∀ c ∈ e.text.toList.head?, isBlank c = false) ↔
    (e.epoch = 0 → ∀ c ∈ e.version.toList.head?, isBlank c = false) := by
  by_cases hepoch : e.epoch = 0
  · obtain ⟨c, cs, hcs⟩ := List.exists_cons_of_ne_nil (mt String.toList_eq_nil_iff.mp hversion)
    simp [toList_text_of_eq hepoch, body, hcs, hepoch]
  · obtain ⟨d, digits, hdigits⟩ :=
      List.exists_cons_of_ne_nil (Nat.toDigits_ne_nil (b := 10) (n := e.epoch.toNat))
    have hd : d ∈ Nat.toDigits 10 e.epoch.toNat := hdigits ▸ List.mem_cons_self
    have hblank := isBlank_of_isDigit (isDigit_of_mem_toDigits hd)
    simp [toList_text_of_ne hepoch, hdigits, hepoch, hblank]

/-- Without an epoch nothing but the body is printed, and nothing longer can be read. -/
theorem read_of_epoch_eq (hepoch : e.epoch = 0)
    (h : readEpoch? (trimChars e.text.toList) = some (e.epoch, rest)) (hbody : e.body <+: rest) :
    trimChars e.text.toList = e.text.toList ∧ rest = e.body := by
  have hrest : rest <:+ trimChars e.text.toList := by
    rcases readEpoch?_eq_some.mp h with ⟨-, -, hcs⟩ | ⟨-, hcs⟩ | ⟨digits, -, -, hcs, -⟩
    · simp [hcs]
    · simp [hcs]
    · rw [hcs]
      exact (List.suffix_cons ':' rest).trans (List.suffix_append digits _)
  have htrim : trimChars e.text.toList <:+: e.body := by
    obtain ⟨front, back, htext, -, -⟩ := exists_trimChars e.text.toList
    rw [← toList_text_of_eq hepoch]
    exact ⟨front, back, htext.symm⟩
  have hle := Nat.le_trans hbody.length_le hrest.length_le
  have hge := Nat.le_trans hrest.length_le htrim.length_le
  rw [toList_text_of_eq hepoch] at htrim hle ⊢
  exact ⟨htrim.sublist.eq_of_length_le hle, (hbody.eq_of_length_le hge).symm⟩

/-- The colon of a printed epoch is the first one, so the cut gives what was printed. -/
theorem read_of_epoch_ne (hepoch : e.epoch ≠ 0)
    (h : readEpoch? (trimChars e.text.toList) = some (e.epoch, rest)) (hbody : e.body <+: rest) :
    trimChars e.text.toList = e.text.toList ∧ rest = e.body := by
  obtain ⟨front, back, htext, hfront, -⟩ := exists_trimChars e.text.toList
  obtain ⟨digits, hcolon, hcs⟩ :
      ∃ digits, ':' ∉ digits ∧ trimChars e.text.toList = digits ++ ':' :: rest := by
    rcases readEpoch?_eq_some.mp h with ⟨hzero, -⟩ | ⟨hzero, -⟩ | ⟨digits, -, hcolon, hcs, -⟩
    · exact absurd hzero hepoch
    · exact absurd hzero hepoch
    · exact ⟨digits, hcolon, hcs⟩
  have hfront' : ':' ∉ front := fun hmem => absurd (hfront _ hmem) (by decide)
  have hcut : cutFirst ':' e.text.toList = some (front ++ digits, rest ++ back) := by
    rw [cutFirst_eq_some, htext, hcs]
    simp [hfront', hcolon]
  have hprinted : cutFirst ':' e.text.toList = some (Nat.toDigits 10 e.epoch.toNat, e.body) := by
    rw [toList_text_of_ne hepoch, cutFirst_append (colon_notMem_toDigits _)]
  rw [hcut, Option.some.injEq, Prod.mk.injEq] at hprinted
  have hfront_nil : front = [] := by
    apply List.eq_nil_iff_forall_not_mem.mpr
    intro c hc
    have hdigit : c ∈ Nat.toDigits 10 e.epoch.toNat := hprinted.1 ▸ List.mem_append_left digits hc
    have hnot := isBlank_of_isDigit (isDigit_of_mem_toDigits hdigit)
    simp [hfront c hc] at hnot
  have hback_nil : back = [] := by
    have hlength := hbody.length_le
    rw [← hprinted.2, List.length_append] at hlength
    exact List.eq_nil_of_length_eq_zero (by omega)
  rw [hfront_nil, hback_nil] at htext
  rw [hback_nil] at hprinted
  exact ⟨by simpa using htext.symm, by simpa using hprinted.2⟩

theorem text_of_read (h : readEpoch? (trimChars e.text.toList) = some (e.epoch, rest))
    (hbody : e.body <+: rest) : trimChars e.text.toList = e.text.toList ∧ rest = e.body := by
  by_cases hepoch : e.epoch = 0
  · exact read_of_epoch_eq hepoch h hbody
  · exact read_of_epoch_ne hepoch h hbody

end Printing

/-- A build comes back from its text exactly where its parts can be told apart in it. -/
theorem parse_text_iff (e : Evr) : parse e.text = .ok e ↔ e.Printable := by
  rw [parse_eq_ok]
  constructor
  · intro h
    obtain ⟨hversion, rest, hepoch, hrelease⟩ := h
    obtain ⟨htrim, rfl⟩ := text_of_read hepoch (body_prefix_of_cutRelease hrelease)
    rw [htrim, readEpoch?_text] at hepoch
    rw [cutRelease_body] at hrelease
    obtain ⟨hfront, hback⟩ := trimChars_eq_self_iff.mp htrim
    exact ⟨hversion, hrelease.1, hrelease.2, hepoch, (head?_text hversion).mp hfront, hback⟩
  · intro h
    have htrim := trimChars_eq_self ((head?_text h.version_ne).mpr h.front) h.back
    refine ⟨h.version_ne, e.body, ?_, cutRelease_body.mpr ⟨h.release_dash, h.version_dash⟩⟩
    rw [htrim]
    exact readEpoch?_text.mpr h.colon

/-- Behind an epoch a version may hold colons and begin with a blank. -/
example : (parse (text ⟨1, " a:b", "c:d"⟩)).toOption = some ⟨1, " a:b", "c:d"⟩ := by decide

end Depsolve.Evr
