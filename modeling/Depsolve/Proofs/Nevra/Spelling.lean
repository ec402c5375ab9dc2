import Depsolve.Proofs.Nevra.Ways
import Depsolve.Proofs.Text.Numeral
/-!
# Splitting and printing identities

A reading prints as the text that was read, up to zeros in front of the epoch, since each
way to match covers the whole text. Where the parts of a full identity keep clear of the
marks that close them, the longest name that can be matched is the name that was printed,
so all parts are read back.
-/
namespace Depsolve.Nevra

/-- A text is that of an identity, possibly with more zeros in front of the epoch. -/
def SpelledAs (n : Nevra) (text : String) : Prop :=
  match n.epoch with
  | none => text = n.text
  | some epoch => ∃ zeros rest : String, (∀ c ∈ zeros.toList, c = '0') ∧
      n.text = s!"{n.name}-{epoch.toNat}:{rest}" ∧
      text = s!"{n.name}-{zeros}{epoch.toNat}:{rest}"

section Printing

variable {name : List Char} {t : Tail} {n : Nevra}

theorem spelledAs_of_ofTail? (hproper : t.Proper) (h : ofTail? name t = some n) :
    n.SpelledAs (String.ofList (name ++ '-' :: t.chars)) := by
  obtain ⟨epoch, version, release, arch⟩ := t
  cases epoch with
  | none =>
    cases h
    show _ = text _
    apply String.toList_inj.mp
    cases release <;> cases arch <;> simp [text, Tail.chars, epochChars]
  | some digits =>
    obtain ⟨epoch, hepoch, rfl⟩ := Option.map_eq_some_iff.mp h
    obtain ⟨hsome, hdigits⟩ := hproper.epoch digits rfl
    obtain ⟨zeros, rfl⟩ := exists_zeros_of_readUInt32? hsome hdigits hepoch
    let rest : Tail := { epoch := none, version, release, arch }
    refine ⟨String.ofList (List.replicate zeros '0'), String.ofList rest.chars, by simp, ?_, ?_⟩
    · apply String.toList_inj.mp
      cases release <;> cases arch <;> simp [text, Tail.chars, epochChars, rest]
    · apply String.toList_inj.mp
      simp [Tail.chars, epochChars, rest]

theorem spelledAs_of_mem_nameWays {tails : List Char → List (Tail × List Char)} {cs : List Char}
    (htails : ∀ cs t, (t, []) ∈ tails cs → t.Proper ∧ cs = t.chars)
    (h : some n ∈ (nameWays tails cs).map fun way => ofTail? way.1 way.2) :
    n.SpelledAs (String.ofList cs) := by
  obtain ⟨⟨name, t⟩, hway, hn⟩ := List.mem_map.mp h
  obtain ⟨-, -, rest, rfl, ht⟩ := mem_nameWays.mp hway
  obtain ⟨hproper, rfl⟩ := htails rest t ht
  exact spelledAs_of_ofTail? hproper hn

theorem spelledAs_of_mem_ways {form : NevraForm} {cs : List Char} (h : some n ∈ ways form cs) :
    n.SpelledAs (String.ofList cs) := by
  cases form with
  | nevra =>
    refine spelledAs_of_mem_nameWays (fun cs t ht => ?_) h
    obtain ⟨hproper, -, -, hcs⟩ := mem_archWays.mp ht
    exact ⟨hproper, by rwa [List.append_nil] at hcs⟩
  | nevr =>
    refine spelledAs_of_mem_nameWays (fun cs t ht => ?_) h
    obtain ⟨hproper, -, -, hcs⟩ := mem_releaseWays.mp ht
    exact ⟨hproper, by rwa [List.append_nil] at hcs⟩
  | nev =>
    refine spelledAs_of_mem_nameWays (fun cs t ht => ?_) h
    obtain ⟨hproper, -, -, hcs⟩ := mem_versionWays.mp ht
    exact ⟨hproper, by rwa [List.append_nil] at hcs⟩
  | na =>
    obtain ⟨name, arch, rfl, -, -, -, -, hn⟩ := mem_ways_na.mp h
    cases hn
    show _ = text _
    apply String.toList_inj.mp
    simp [text]
  | name =>
    obtain ⟨-, -, hn⟩ := mem_ways_name.mp h
    cases hn
    show _ = text _
    simp [text]

end Printing

section Reading

variable {tail? : List Char → Option Tail} {name cs : List Char} {t : Tail}

theorem splitName?_eq_none (h : ∀ front rest, cs = front ++ '-' :: rest → tail? rest = none) :
    splitName? tail? cs = none := by
  induction cs with
  | nil => rfl
  | cons c cs ih =>
    by_cases hc : c = ':'
    · simp [splitName?, hc]
    · have hrest := ih fun front rest hcs => h (c :: front) rest (by rw [hcs]; rfl)
      rw [splitName?, if_neg hc, hrest]
      by_cases hdash : c = '-'
      · simp [hdash, h [] cs (by rw [hdash]; rfl)]
      · simp [hdash]

/-- A name is read back where what follows its dash has no longer name in it. -/
theorem splitName?_append (hname : ':' ∉ name) (ht : tail? cs = some t)
    (hlonger : splitName? tail? cs = none) :
    splitName? tail? (name ++ '-' :: cs) = some (name, t) := by
  induction name with
  | nil => simp [splitName?, hlonger, ht]
  | cons c name ih =>
    simp only [List.mem_cons, not_or] at hname
    simp [splitName?, Ne.symm hname.1, ih hname.2]

end Reading

/-- Parts of a full identity that keep clear of the marks between them. -/
structure Separable (name version release arch : String) : Prop where
  name_ne : name ≠ ""
  name_colon : ':' ∉ name.toList
  version_ne : version ≠ ""
  version_dash : '-' ∉ version.toList
  version_colon : ':' ∉ version.toList
  release_ne : release ≠ ""
  release_dash : '-' ∉ release.toList
  release_line : '\n' ∉ release.toList
  arch_ne : arch ≠ ""
  arch_dot : '.' ∉ arch.toList

/-- The parts behind the name, as they are printed. -/
def Tail.full (epoch : Option UInt32) (version release arch : String) : Tail where
  epoch := epoch.map fun n => Nat.toDigits 10 n.toNat
  version := version.toList
  release := some release.toList
  arch := some arch.toList

section Separable

variable {name version release arch : String} (epoch : Option UInt32)

theorem toList_text_full :
    (text ⟨name, epoch, some version, some release, some arch⟩).toList =
      name.toList ++ '-' :: (Tail.full epoch version release arch).chars := by
  cases epoch <;> simp [text, Tail.full, Tail.chars, epochChars]

theorem epochDigits_printed : EpochDigits (epoch.map fun n => Nat.toDigits 10 n.toNat) := by
  intro digits hdigits
  obtain ⟨n, -, rfl⟩ := Option.map_eq_some_iff.mp hdigits
  exact ⟨Nat.toDigits_ne_nil, fun c => isDigit_of_mem_toDigits⟩

theorem ofTail?_full : ofTail? name.toList (Tail.full epoch version release arch) =
    some ⟨name, epoch, some version, some release, some arch⟩ := by
  cases epoch <;> simp [ofTail?, Tail.full, readUInt32?_toDigits]

variable (h : Separable name version release arch)
include h

theorem Separable.proper : (Tail.full epoch version release arch).Proper := by
  apply Tail.proper_arch.mpr
  have hchars : ∀ c ∈ version.toList, inVersion c = true := by
    intro c hc
    have hdash : c ≠ '-' := fun heq => h.version_dash (heq ▸ hc)
    have hcolon : c ≠ ':' := fun heq => h.version_colon (heq ▸ hc)
    simp [inVersion, hdash, hcolon]
  have hversion := Tail.proper_version.mpr
    ⟨epochDigits_printed epoch, by simpa using h.version_ne, hchars⟩
  have hrelease := Tail.proper_release.mpr ⟨hversion, by simpa using h.release_ne, h.release_line⟩
  exact ⟨hrelease, by simpa using h.arch_ne, h.arch_dot⟩

theorem Separable.count_dash : (Tail.chars { Tail.full epoch version release arch with
    arch := none }).count '-' = 1 := by
  have hversion : version.toList.count '-' = 0 := List.count_eq_zero.mpr h.version_dash
  have hrelease : release.toList.count '-' = 0 := List.count_eq_zero.mpr h.release_dash
  have hepoch : (epochChars (Tail.full epoch version release arch).epoch).count '-' = 0 := by
    apply List.count_eq_zero.mpr
    cases epoch with
    | none => simp [Tail.full, epochChars]
    | some n =>
      have hdigits : '-' ∉ Nat.toDigits 10 n.toNat :=
        fun hdash => absurd (isDigit_of_mem_toDigits hdash) (by decide)
      simp [Tail.full, epochChars, hdigits]
  rw [Tail.chars, List.count_append, List.count_append, List.count_append, hepoch]
  simp [Tail.full, hversion, hrelease]

/-- The printed name is not followed by a longer one: with a dash in front of it a tail would
have two dashes before its last dot. -/
theorem Separable.splitName?_full :
    splitName? readArch? (Tail.full epoch version release arch).chars = none := by
  apply splitName?_eq_none
  intro front rest hsplit
  apply Option.eq_none_iff_forall_ne_some.mpr
  intro t hread
  obtain ⟨hproper, hrelease', harch', rfl⟩ := readArch?_eq_some.mp hread
  obtain ⟨epoch', version', release', arch'⟩ := t
  obtain ⟨release', rfl⟩ := Option.isSome_iff_exists.mp hrelease'
  obtain ⟨arch', rfl⟩ := Option.isSome_iff_exists.mp harch'
  have hdot := (Tail.proper_arch.mp hproper).2.2
  have hfull : cutLast '.' (Tail.full epoch version release arch).chars =
      some (Tail.chars { Tail.full epoch version release arch with arch := none }, arch.toList) :=
    cutLast_eq_some.mpr ⟨Tail.chars_arch, h.arch_dot⟩
  rw [hsplit, Tail.chars_arch, ← List.cons_append, ← List.append_assoc, cutLast_append hdot,
    Option.some.injEq, Prod.mk.injEq] at hfull
  have hcount := h.count_dash epoch
  rw [← hfull.1, Tail.chars_release] at hcount
  simp only [List.count_append, List.count_cons_self] at hcount
  omega

theorem Separable.parse?_text :
    parse? (text ⟨name, epoch, some version, some release, some arch⟩) .nevra =
      some ⟨name, epoch, some version, some release, some arch⟩ := by
  have hread : readArch? (Tail.full epoch version release arch).chars =
      some (Tail.full epoch version release arch) :=
    readArch?_eq_some.mpr ⟨h.proper epoch, rfl, rfl, rfl⟩
  have hname := splitName?_append h.name_colon hread (h.splitName?_full epoch)
  obtain ⟨c, cs, hcs⟩ := List.exists_cons_of_ne_nil (mt String.toList_eq_nil_iff.mp h.name_ne)
  show readVersioned? readArch? _ = _
  rw [toList_text_full, readVersioned?, hname, ← ofTail?_full, hcs]

end Separable

theorem spelledAs_of_parse? {pattern : String} {form : NevraForm} {n : Nevra}
    (h : parse? pattern form = some n) : n.SpelledAs pattern := by
  rw [parse?_eq_first, Option.join_eq_some_iff] at h
  have hspelled := spelledAs_of_mem_ways (List.mem_of_mem_head? h)
  rwa [String.ofList_toList] at hspelled

/-- Splitting loses nothing, and it inverts printing: each reading of a text prints as this
text up to zeros in front of the epoch, and the full reading of a printed identity gives back
its parts. -/
theorem reading_spells_and_inverts :
    (∀ pattern form n, parse? pattern form = some n → n.SpelledAs pattern) ∧
      ∀ (name : String) (epoch : Option UInt32) (version release arch : String),
        Separable name version release arch →
        parse? (text ⟨name, epoch, some version, some release, some arch⟩) .nevra =
          some ⟨name, epoch, some version, some release, some arch⟩ := by
  constructor
  · intro pattern form n h
    exact spelledAs_of_parse? h
  · intro name epoch version release arch h
    exact h.parse?_text epoch

/-- Zeros in front of an epoch, and marks inside the parts. -/
theorem reading_spells_and_inverts_marks :
    (parse? "a-008:1-2.x" .nevra = some ⟨"a", some 8, some "1", some "2", some "x"⟩ ∧
      SpelledAs ⟨"a", some 8, some "1", some "2", some "x"⟩ "a-008:1-2.x") ∧
    Separable "a-1.b" "3.6~9" "1:2.fc" "x-8:6" ∧
      parse? "a-1.b-7:3.6~9-1:2.fc.x-8:6" .nevra =
        some ⟨"a-1.b", some 7, some "3.6~9", some "1:2.fc", some "x-8:6"⟩ := by
  have hread : parse? "a-008:1-2.x" .nevra = some ⟨"a", some 8, some "1", some "2", some "x"⟩ := by
    decide
  have hmarks : Separable "a-1.b" "3.6~9" "1:2.fc" "x-8:6" := by
    constructor <;> decide
  exact ⟨⟨hread, reading_spells_and_inverts.1 _ _ _ hread⟩, hmarks,
    reading_spells_and_inverts.2 "a-1.b" (some 7) "3.6~9" "1:2.fc" "x-8:6" hmarks⟩

end Depsolve.Nevra
