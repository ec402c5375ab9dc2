import Depsolve.Nevra
import Depsolve.Proofs.Text.Cut
/-!
# What stands behind the name

A tail has one text, and its parts can be read back from it: the epoch is closed by the
first colon, the version by the first dash, and the architecture is opened by the last
dot. So each reader of tails accepts exactly the texts of tails of its form.
-/
namespace Depsolve.Nevra

def epochChars : Option (List Char) → List Char
  | some digits => digits ++ [':']
  | none => []

/-- Where there is an epoch, it is a run of digits. -/
def EpochDigits (epoch : Option (List Char)) : Prop :=
  ∀ digits ∈ epoch, digits ≠ [] ∧ ∀ c ∈ digits, c.isDigit = true

namespace Tail

def chars (t : Tail) : List Char :=
  epochChars t.epoch ++ t.version ++ t.release.elim [] ('-' :: ·) ++ t.arch.elim [] ('.' :: ·)

/-- What the parts of a tail may hold. -/
structure Proper (t : Tail) : Prop where
  epoch : EpochDigits t.epoch
  version_ne : t.version ≠ []
  version : ∀ c ∈ t.version, inVersion c = true
  release : ∀ release ∈ t.release, release ≠ [] ∧ '\n' ∉ release
  arch : ∀ arch ∈ t.arch, arch ≠ [] ∧ '.' ∉ arch

variable {epoch release? : Option (List Char)} {version release arch : List Char}

theorem proper_version : Proper { epoch, version } ↔
    EpochDigits epoch ∧ version ≠ [] ∧ ∀ c ∈ version, inVersion c = true :=
  ⟨fun h => ⟨h.epoch, h.version_ne, h.version⟩, fun h => ⟨h.1, h.2.1, h.2.2, nofun, nofun⟩⟩

theorem proper_release : Proper { epoch, version, release := some release } ↔
    Proper { epoch, version } ∧ release ≠ [] ∧ '\n' ∉ release := by
  constructor
  · intro h
    exact ⟨⟨h.epoch, h.version_ne, h.version, nofun, nofun⟩, h.release release rfl⟩
  · intro h
    exact ⟨h.1.epoch, h.1.version_ne, h.1.version, by simpa using h.2, nofun⟩

theorem proper_arch : Proper { epoch, version, release := release?, arch := some arch } ↔
    Proper { epoch, version, release := release? } ∧ arch ≠ [] ∧ '.' ∉ arch := by
  constructor
  · intro h
    exact ⟨⟨h.epoch, h.version_ne, h.version, h.release, nofun⟩, h.arch arch rfl⟩
  · intro h
    exact ⟨h.1.epoch, h.1.version_ne, h.1.version, h.1.release, by simpa using h.2⟩

theorem chars_version : chars { epoch, version } = epochChars epoch ++ version := by
  simp [chars]

theorem chars_release : chars { epoch, version, release := some release } =
    chars { epoch, version } ++ '-' :: release := by
  simp [chars]

theorem chars_arch : chars { epoch, version, release := release?, arch := some arch } =
    chars { epoch, version, release := release? } ++ '.' :: arch := by
  simp [chars]

end Tail

section Epoch

variable {epoch : Option (List Char)} {digits version rest cs : List Char}

theorem inVersion_of_isDigit {c : Char} (h : c.isDigit = true) : inVersion c = true := by
  have hdash : c ≠ '-' := fun hc => absurd h (by rw [hc]; decide)
  have hcolon : c ≠ ':' := fun hc => absurd h (by rw [hc]; decide)
  simp [inVersion, hdash, hcolon]

theorem splitEpoch_digits (hsome : digits ≠ []) (hdigits : ∀ c ∈ digits, c.isDigit = true) :
    splitEpoch (digits ++ ':' :: rest) = (some digits, rest) := by
  have hends : ∀ c ∈ (':' :: rest).head?, c.isDigit = false := by simp
  have hrun := takeWhile_dropWhile_of_run hdigits hends
  rw [splitEpoch, hrun.1, hrun.2]
  cases digits with
  | nil => exact absurd rfl hsome
  | cons d digits => rfl

theorem splitEpoch_none (h : ∀ digits rest, digits ≠ [] → (∀ c ∈ digits, c.isDigit = true) →
    cs ≠ digits ++ ':' :: rest) : splitEpoch cs = (none, cs) := by
  rw [splitEpoch]
  split
  · rfl
  · next rest hrest hsome =>
    refine absurd ?_ (h _ rest hsome fun c => of_mem_takeWhile)
    rw [← hrest, List.takeWhile_append_dropWhile]
  · rfl

theorem splitEpoch_sound (h : splitEpoch cs = (epoch, rest)) :
    EpochDigits epoch ∧ cs = epochChars epoch ++ rest := by
  by_cases hsplit : ∀ digits rest, digits ≠ [] → (∀ c ∈ digits, c.isDigit = true) →
      cs ≠ digits ++ ':' :: rest
  · rw [splitEpoch_none hsplit] at h
    cases h
    simp [EpochDigits, epochChars]
  · simp only [ne_eq, Classical.not_forall, Classical.not_not] at hsplit
    obtain ⟨digits, rest', hsome, hdigits, rfl⟩ := hsplit
    rw [splitEpoch_digits hsome hdigits] at h
    cases h
    simpa [EpochDigits, epochChars] using ⟨hsome, hdigits⟩

theorem splitEpoch_chars (rest : List Char) (hepoch : EpochDigits epoch)
    (hversion : ∀ c ∈ version, inVersion c = true) (hrest : ∀ c ∈ rest.head?, c = '-') :
    splitEpoch (epochChars epoch ++ (version ++ rest)) = (epoch, version ++ rest) := by
  cases epoch with
  | some digits =>
    obtain ⟨hdigits, hdigits'⟩ := hepoch digits rfl
    simpa [epochChars] using splitEpoch_digits hdigits hdigits'
  | none =>
    apply splitEpoch_none
    intro digits rest' hdigits hdigits' heq
    have hends : ∀ c ∈ rest.head?, inVersion c = false := by
      intro c hc
      rw [hrest c hc]
      decide
    have hrun := takeWhile_dropWhile_of_run hversion hends
    have hends' : ∀ c ∈ (':' :: rest').head?, inVersion c = false := by simp [inVersion]
    have hrun' := takeWhile_dropWhile_of_run
      (fun c hc => inVersion_of_isDigit (hdigits' c hc)) hends'
    rw [← heq] at hrun'
    have hcolon : rest = ':' :: rest' := hrun.2.symm.trans hrun'.2
    exact absurd (hrest ':' (by rw [hcolon]; rfl)) (by decide)

end Epoch

section Readers

variable {t : Tail} {cs : List Char}

theorem readVersion?_eq_some : readVersion? cs = some t ↔
    t.Proper ∧ t.release = none ∧ t.arch = none ∧ cs = t.chars := by
  constructor
  · intro h
    cases hsplit : splitEpoch cs with
    | mk epoch version =>
      obtain ⟨hepoch, hcs⟩ := splitEpoch_sound hsplit
      simp only [readVersion?, hsplit] at h
      split at h
      · next hversion =>
        cases h
        simp only [Bool.and_eq_true, Bool.not_eq_true', List.isEmpty_eq_false_iff,
          List.all_eq_true] at hversion
        have hproper := Tail.proper_version.mpr ⟨hepoch, hversion⟩
        exact ⟨hproper, rfl, rfl, by rw [hcs, Tail.chars_version]⟩
      · cases h
  · intro h
    obtain ⟨epoch, version, release, arch⟩ := t
    obtain ⟨hproper, hrelease, harch, rfl⟩ := h
    cases hrelease
    cases harch
    obtain ⟨hepoch, hsome, hversion⟩ := Tail.proper_version.mp hproper
    have hsplit := splitEpoch_chars [] hepoch hversion nofun
    have hall : version.all inVersion = true := List.all_eq_true.mpr hversion
    rw [List.append_nil] at hsplit
    simp [readVersion?, Tail.chars_version, hsplit, hsome, hall]

theorem readRelease?_eq_some : readRelease? cs = some t ↔
    t.Proper ∧ t.release.isSome ∧ t.arch = none ∧ cs = t.chars := by
  constructor
  · intro h
    cases hsplit : splitEpoch cs with
    | mk epoch rest =>
      obtain ⟨hepoch, hcs⟩ := splitEpoch_sound hsplit
      have hrest := List.takeWhile_append_dropWhile (p := inVersion) (l := rest)
      have hall : ∀ c ∈ rest.takeWhile inVersion, inVersion c = true := fun c => of_mem_takeWhile
      simp only [readRelease?, hsplit] at h
      split at h
      · next c version d release hversion hrelease =>
        rw [hversion, hrelease] at hrest
        rw [hversion] at hall
        split at h
        · next hline =>
          cases h
          have hproper := Tail.proper_version.mpr ⟨hepoch, by simp, hall⟩
          refine ⟨Tail.proper_release.mpr ⟨hproper, by simp, all_bne_iff.mp hline⟩, rfl, rfl, ?_⟩
          rw [hcs, ← hrest, Tail.chars_release, Tail.chars_version, List.append_assoc]
        · cases h
      · cases h
  · intro h
    obtain ⟨epoch, version, release, arch⟩ := t
    obtain ⟨hproper, hrelease, harch, rfl⟩ := h
    obtain ⟨release, rfl⟩ := Option.isSome_iff_exists.mp hrelease
    cases harch
    obtain ⟨hproper, hsome', hline⟩ := Tail.proper_release.mp hproper
    obtain ⟨hepoch, hsome, hversion⟩ := Tail.proper_version.mp hproper
    have hsplit := splitEpoch_chars ('-' :: release) hepoch hversion (by simp)
    have hends : ∀ c ∈ ('-' :: release).head?, inVersion c = false := by simp [inVersion]
    have hrun := takeWhile_dropWhile_of_run hversion hends
    obtain ⟨c, version, rfl⟩ := List.exists_cons_of_ne_nil hsome
    obtain ⟨d, release, rfl⟩ := List.exists_cons_of_ne_nil hsome'
    rw [Tail.chars_release, Tail.chars_version, List.append_assoc]
    simp only [readRelease?, hsplit, hrun.1, hrun.2, all_bne_iff.mpr hline, if_true]

theorem splitArch?_eq_some {front arch : List Char} : splitArch? cs = some (front, arch) ↔
    front ≠ [] ∧ arch ≠ [] ∧ '.' ∉ arch ∧ cs = front ++ '.' :: arch := by
  constructor
  · intro h
    rw [splitArch?] at h
    split at h
    · next c front d arch hcut =>
      cases h
      obtain ⟨hcs, hdot⟩ := cutLast_eq_some.mp hcut
      exact ⟨by simp, by simp, hdot, hcs⟩
    · cases h
  · intro h
    obtain ⟨hfront, harch, hdot, rfl⟩ := h
    rw [splitArch?, cutLast_append hdot]
    obtain ⟨c, front, rfl⟩ := List.exists_cons_of_ne_nil hfront
    obtain ⟨d, arch, rfl⟩ := List.exists_cons_of_ne_nil harch
    rfl

theorem readArch?_eq_some : readArch? cs = some t ↔
    t.Proper ∧ t.release.isSome ∧ t.arch.isSome ∧ cs = t.chars := by
  constructor
  · intro h
    rw [readArch?] at h
    split at h
    · cases h
    · next front arch hsplit =>
      obtain ⟨-, hsome, hdot, hcs⟩ := splitArch?_eq_some.mp hsplit
      obtain ⟨⟨epoch, version, release, arch'⟩, ht, rfl⟩ := Option.map_eq_some_iff.mp h
      obtain ⟨hproper, hrelease, harch, rfl⟩ := readRelease?_eq_some.mp ht
      cases harch
      have hproper' := Tail.proper_arch.mpr ⟨hproper, hsome, hdot⟩
      exact ⟨hproper', hrelease, rfl, by rw [hcs, Tail.chars_arch]⟩
  · intro h
    obtain ⟨epoch, version, release, arch⟩ := t
    obtain ⟨hproper, hrelease, harch, rfl⟩ := h
    obtain ⟨arch, rfl⟩ := Option.isSome_iff_exists.mp harch
    obtain ⟨hproper, hsome, hdot⟩ := Tail.proper_arch.mp hproper
    have hread : readRelease? (Tail.chars { epoch, version, release }) =
        some { epoch, version, release } :=
      readRelease?_eq_some.mpr ⟨hproper, hrelease, rfl, rfl⟩
    have hfront : Tail.chars { epoch, version, release } ≠ [] := by
      have hversion : version ≠ [] := hproper.version_ne
      simp [Tail.chars, hversion]
    rw [Tail.chars_arch, readArch?, splitArch?_eq_some.mpr ⟨hfront, hsome, hdot, rfl⟩]
    simp [hread]

end Readers

end Depsolve.Nevra
