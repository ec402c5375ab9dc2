import Depsolve.Proofs.Nevra.Tail
import Depsolve.Proofs.Text.Backtracking
/-!
# The ways to read a package pattern

The full form is the pattern `^([^:]+)-(?:([0-9]+):)?([^-:]+)-(.+)\.([^.]+)$`, and the
shorter ones leave parts of it out. A text can match in several ways, since a name may
hold dashes and dots; the reading is the first way, and every way covers the whole text.
-/
namespace Depsolve.Nevra

/-- `(?:([0-9]+):)?` -/
def epochWays (cs : List Char) : List (Option (List Char) × List Char) :=
  ((someRuns Char.isDigit cs).flatMap fun (digits, cs) =>
    (past ':' cs).map fun rest => (some digits, rest)) ++ [(none, cs)]

/-- `(?:([0-9]+):)?([^-:]+)` -/
def versionWays (cs : List Char) : List (Tail × List Char) :=
  (epochWays cs).flatMap fun (epoch, cs) =>
    (someRuns inVersion cs).map fun (version, rest) => ({ epoch, version }, rest)

/-- A version and `-(.+)` -/
def releaseWays (cs : List Char) : List (Tail × List Char) :=
  (versionWays cs).flatMap fun (t, cs) => (past '-' cs).flatMap fun cs =>
    (someRuns (· != '\n') cs).map fun (release, rest) => ({ t with release := some release }, rest)

/-- A version, a release and `\.([^.]+)` -/
def archWays (cs : List Char) : List (Tail × List Char) :=
  (releaseWays cs).flatMap fun (t, cs) => (past '.' cs).flatMap fun cs =>
    (someRuns (· != '.') cs).map fun (arch, rest) => ({ t with arch := some arch }, rest)

/-- `^([^:]+)-` and a tail up to the end. -/
def nameWays (tails : List Char → List (Tail × List Char)) (cs : List Char) :
    List (List Char × Tail) :=
  (someRuns (· != ':') cs).flatMap fun (name, cs) => (past '-' cs).flatMap fun cs =>
    (whole (tails cs)).map fun t => (name, t)

/-- What each way to match the pattern of a form is read as; an epoch that does not fit in 32
bits spoils the reading. -/
def ways (form : NevraForm) (cs : List Char) : List (Option Nevra) :=
  match form with
  | .nevra => (nameWays archWays cs).map fun (name, t) => ofTail? name t
  | .nevr => (nameWays releaseWays cs).map fun (name, t) => ofTail? name t
  | .nev => (nameWays versionWays cs).map fun (name, t) => ofTail? name t
  | .na =>
    (someRuns (· != ':') cs).flatMap fun (name, cs) => (past '.' cs).flatMap fun cs =>
      (whole (someRuns (· != '.') cs)).map fun arch =>
        some { name := String.ofList name, arch := some (String.ofList arch) }
  | .name => (whole (someRuns (· != ':') cs)).map fun name => some { name := String.ofList name }

section Tails

variable {t : Tail} {cs rest : List Char} {epoch : Option (List Char)}

theorem mem_epochWays : (epoch, rest) ∈ epochWays cs ↔
    EpochDigits epoch ∧ cs = epochChars epoch ++ rest := by
  simp only [epochWays, List.mem_append, List.mem_flatMap, Prod.exists, mem_someRuns, List.mem_map,
    mem_past, List.mem_singleton, Prod.mk.injEq]
  constructor
  · intro h
    rcases h with ⟨digits, _, ⟨rfl, hsome, hdigits⟩, rest', rfl, rfl, rfl⟩ | ⟨rfl, rfl⟩
    · simpa [EpochDigits, epochChars] using ⟨hsome, hdigits⟩
    · simp [EpochDigits, epochChars]
  · intro h
    obtain ⟨hepoch, rfl⟩ := h
    cases epoch with
    | none => exact .inr ⟨rfl, rfl⟩
    | some digits =>
      obtain ⟨hsome, hdigits⟩ := hepoch digits rfl
      exact .inl ⟨digits, ':' :: rest, ⟨by simp [epochChars], hsome, hdigits⟩, rest, rfl, rfl, rfl⟩

theorem mem_versionWays : (t, rest) ∈ versionWays cs ↔
    t.Proper ∧ t.release = none ∧ t.arch = none ∧ cs = t.chars ++ rest := by
  simp only [versionWays, List.mem_flatMap, Prod.exists, mem_epochWays, List.mem_map, mem_someRuns,
    Prod.mk.injEq]
  constructor
  · intro h
    obtain ⟨epoch, _, ⟨hepoch, rfl⟩, version, _, ⟨rfl, hversion⟩, rfl, rfl⟩ := h
    refine ⟨Tail.proper_version.mpr ⟨hepoch, hversion⟩, rfl, rfl, ?_⟩
    rw [Tail.chars_version, List.append_assoc]
  · intro h
    obtain ⟨epoch, version, release, arch⟩ := t
    obtain ⟨hproper, hrelease, harch, rfl⟩ := h
    cases hrelease
    cases harch
    obtain ⟨hepoch, hversion⟩ := Tail.proper_version.mp hproper
    rw [Tail.chars_version, List.append_assoc]
    exact ⟨epoch, version ++ rest, ⟨hepoch, rfl⟩, version, rest, ⟨rfl, hversion⟩, rfl, rfl⟩

theorem mem_releaseWays : (t, rest) ∈ releaseWays cs ↔
    t.Proper ∧ t.release.isSome ∧ t.arch = none ∧ cs = t.chars ++ rest := by
  simp only [releaseWays, List.mem_flatMap, Prod.exists, mem_versionWays, mem_past, List.mem_map,
    mem_someRuns, ← List.all_eq_true, all_bne_iff, Prod.mk.injEq]
  constructor
  · intro h
    obtain ⟨⟨epoch, version, release, arch⟩, _, ⟨hproper, hnone, harch, rfl⟩, _, rfl, release, _,
      ⟨rfl, hrelease⟩, rfl, rfl⟩ := h
    cases hnone
    cases harch
    refine ⟨Tail.proper_release.mpr ⟨hproper, hrelease⟩, rfl, rfl, ?_⟩
    rw [Tail.chars_release, List.append_assoc, List.cons_append]
  · intro h
    obtain ⟨epoch, version, release, arch⟩ := t
    obtain ⟨hproper, hrelease, harch, rfl⟩ := h
    obtain ⟨release, rfl⟩ := Option.isSome_iff_exists.mp hrelease
    cases harch
    obtain ⟨hproper, hrelease⟩ := Tail.proper_release.mp hproper
    rw [Tail.chars_release, List.append_assoc, List.cons_append]
    exact ⟨{ epoch, version }, '-' :: (release ++ rest), ⟨hproper, rfl, rfl, rfl⟩, release ++ rest,
      rfl, release, rest, ⟨rfl, hrelease⟩, rfl, rfl⟩

theorem mem_archWays : (t, rest) ∈ archWays cs ↔
    t.Proper ∧ t.release.isSome ∧ t.arch.isSome ∧ cs = t.chars ++ rest := by
  simp only [archWays, List.mem_flatMap, Prod.exists, mem_releaseWays, mem_past, List.mem_map,
    mem_someRuns, ← List.all_eq_true, all_bne_iff, Prod.mk.injEq]
  constructor
  · intro h
    obtain ⟨⟨epoch, version, release, arch⟩, _, ⟨hproper, hrelease, hnone, rfl⟩, _, rfl, arch, _,
      ⟨rfl, harch⟩, rfl, rfl⟩ := h
    cases hnone
    refine ⟨Tail.proper_arch.mpr ⟨hproper, harch⟩, hrelease, rfl, ?_⟩
    rw [Tail.chars_arch, List.append_assoc, List.cons_append]
  · intro h
    obtain ⟨epoch, version, release, arch⟩ := t
    obtain ⟨hproper, hrelease, harch, rfl⟩ := h
    obtain ⟨arch, rfl⟩ := Option.isSome_iff_exists.mp harch
    obtain ⟨hproper, harch⟩ := Tail.proper_arch.mp hproper
    rw [Tail.chars_arch, List.append_assoc, List.cons_append]
    exact ⟨{ epoch, version, release }, '.' :: (arch ++ rest), ⟨hproper, hrelease, rfl, rfl⟩,
      arch ++ rest, rfl, arch, rest, ⟨rfl, harch⟩, rfl, rfl⟩

end Tails

section Names

variable {tails : List Char → List (Tail × List Char)} {tail? : List Char → Option Tail}
  (htails : ∀ cs t, t ∈ whole (tails cs) ↔ tail? cs = some t)
include htails

theorem head?_past_tails (name cs : List Char) :
    ((past '-' cs).flatMap fun cs => (whole (tails cs)).map fun t => (name, t)).head? =
      ((past '-' cs).findSome? tail?).map fun t => (name, t) := by
  have hone : ∀ rest, (whole (tails rest)).head? = tail? rest :=
    fun rest => head?_eq_of_mem_iff (htails rest)
  simp [List.head?_flatMap, hone, Function.comp_def]

theorem head?_nameWays (cs : List Char) :
    (nameWays tails cs).head? = (someRuns (· != ':') cs).findSome? fun way =>
      ((past '-' way.2).findSome? tail?).map fun t => (way.1, t) := by
  rw [nameWays, List.head?_flatMap]
  congr 1
  funext way
  exact head?_past_tails htails way.1 way.2

theorem head?_nameWays_cons {c : Char} (hc : c ≠ ':') (cs : List Char) :
    (nameWays tails (c :: cs)).head? =
      ((nameWays tails cs).head?.or (((past '-' cs).findSome? tail?).map fun t => ([], t))).map
        fun way => (c :: way.1, way.2) := by
  have hclass : (c != ':') = true := by simpa using hc
  rw [head?_nameWays htails, head?_nameWays htails,
    findSome?_someRuns_cons (p := (· != ':')) hclass, Option.map_or,
    List.map_findSome? (l := someRuns _ cs), Option.map_map]
  simp [Function.comp_def]

/-- The longest name with a tail is the one that the ways begin with, or else the empty one. -/
theorem splitName?_eq_or (cs : List Char) :
    splitName? tail? cs = (nameWays tails cs).head?.or
      (((past '-' cs).findSome? tail?).map fun t => ([], t)) := by
  induction cs with
  | nil => rfl
  | cons c cs ih =>
    by_cases hc : c = ':'
    · subst hc
      rfl
    · rw [splitName?, if_neg hc, head?_nameWays_cons htails hc, ← ih]
      cases splitName? tail? cs with
      | some way => rfl
      | none => by_cases hdash : c = '-' <;> simp [past, hdash]

theorem readVersioned?_eq_first (cs : List Char) :
    readVersioned? tail? cs =
      ((nameWays tails cs).map fun way => ofTail? way.1 way.2).head?.join := by
  cases cs with
  | nil => rfl
  | cons c cs =>
    by_cases hc : c = ':'
    · subst hc
      rfl
    · have hname := splitName?_eq_or htails (c :: cs)
      rw [head?_nameWays_cons htails hc, ← splitName?_eq_or htails] at hname
      rw [readVersioned?, hname, List.head?_map, head?_nameWays_cons htails hc,
        ← splitName?_eq_or htails]
      cases splitName? tail? cs with
      | some way => rfl
      | none => cases (past '-' (c :: cs)).findSome? tail? <;> rfl

end Names

section Forms

variable {name arch cs : List Char} {way : Option Nevra}

theorem mem_nameWays {tails : List Char → List (Tail × List Char)} {t : Tail} :
    (name, t) ∈ nameWays tails cs ↔ name ≠ [] ∧ ':' ∉ name ∧
      ∃ rest, cs = name ++ '-' :: rest ∧ (t, []) ∈ tails rest := by
  simp only [nameWays, List.mem_flatMap, Prod.exists, mem_someRuns, ← List.all_eq_true,
    all_bne_iff, mem_past, List.mem_map, mem_whole, Prod.mk.injEq]
  grind

theorem mem_ways_na : way ∈ ways .na cs ↔ ∃ name arch, cs = name ++ '.' :: arch ∧
    name ≠ [] ∧ ':' ∉ name ∧ arch ≠ [] ∧ '.' ∉ arch ∧
      some { name := String.ofList name, arch := some (String.ofList arch) } = way := by
  simp only [ways, List.mem_flatMap, Prod.exists, mem_someRuns, ← List.all_eq_true,
    all_bne_iff, mem_past, List.mem_map, mem_whole]
  grind

theorem mem_ways_name : way ∈ ways .name cs ↔
    cs ≠ [] ∧ ':' ∉ cs ∧ some { name := String.ofList cs } = way := by
  simp only [ways, mem_someRuns, ← List.all_eq_true, all_bne_iff, List.mem_map, mem_whole]
  grind

theorem parse?_na_eq_some {pattern : String} {n : Nevra} : parse? pattern .na = some n ↔
    ∃ name arch, pattern.toList = name ++ '.' :: arch ∧ name ≠ [] ∧ ':' ∉ name ∧ arch ≠ [] ∧
      '.' ∉ arch ∧ { name := String.ofList name, arch := some (String.ofList arch) } = n := by
  constructor
  · intro h
    rw [parse?] at h
    split at h
    · next name arch hsplit =>
      obtain ⟨hname, harch, hdot, hcs⟩ := splitArch?_eq_some.mp hsplit
      split at h
      · next hcolon =>
        exact ⟨name, arch, hcs, hname, all_bne_iff.mp hcolon, harch, hdot, Option.some.inj h⟩
      · cases h
    · cases h
  · intro h
    obtain ⟨name, arch, hcs, hname, hcolon, harch, hdot, rfl⟩ := h
    have hsplit := splitArch?_eq_some.mpr ⟨hname, harch, hdot, hcs⟩
    simp only [parse?, hsplit, all_bne_iff.mpr hcolon, if_true]

theorem parse?_name_eq_some {pattern : String} {n : Nevra} : parse? pattern .name = some n ↔
    pattern.toList ≠ [] ∧ ':' ∉ pattern.toList ∧ { name := pattern } = n := by
  have hall : pattern.toList.all (· != ':') = true ↔ ':' ∉ pattern.toList := all_bne_iff
  simp [parse?, ← hall, and_assoc]

theorem parse?_eq_first (pattern : String) (form : NevraForm) :
    parse? pattern form = (ways form pattern.toList).head?.join := by
  have hshort : (∀ way, way ∈ ways form pattern.toList ↔
      (parse? pattern form).map some = some way) →
      parse? pattern form = (ways form pattern.toList).head?.join := by
    intro h
    rw [head?_eq_of_mem_iff h]
    cases parse? pattern form <;> rfl
  cases form with
  | nevra =>
    refine readVersioned?_eq_first (fun cs t => ?_) pattern.toList
    rw [mem_whole, mem_archWays, readArch?_eq_some, List.append_nil]
  | nevr =>
    refine readVersioned?_eq_first (fun cs t => ?_) pattern.toList
    rw [mem_whole, mem_releaseWays, readRelease?_eq_some, List.append_nil]
  | nev =>
    refine readVersioned?_eq_first (fun cs t => ?_) pattern.toList
    rw [mem_whole, mem_versionWays, readVersion?_eq_some, List.append_nil]
  | na =>
    apply hshort
    intro way
    simp only [mem_ways_na, Option.map_eq_some_iff, parse?_na_eq_some]
    grind
  | name =>
    apply hshort
    intro way
    simp only [mem_ways_name, Option.map_eq_some_iff, parse?_name_eq_some, String.ofList_toList]
    grind

end Forms

end Depsolve.Nevra
