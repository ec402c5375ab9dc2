import Depsolve.Proofs.Nevra.Spelling
import Depsolve.Proofs.Universe.Numbering
import Depsolve.Proofs.Universe.Sample
import Depsolve.Selector
/-!
# Selecting a package by its printed identity

A printed identity is read in the full form first. That reading has every part of the
package, so the package itself has the parts, and neither a shorter form nor a provide is
looked at.
-/
namespace Depsolve

/-- A character that is itself in a pattern, and that makes no dependency expression of it. -/
def isPlainChar (c : Char) : Bool :=
  !Selector.isExpressionChar c && c != '*' && c != '?' && c != '['

def isPlain (s : String) : Bool := s.toList.all isPlainChar

theorem isGlob_of_isPlain {s : String} (h : isPlain s = true) : isGlob s = false := by
  simp only [isPlain, List.all_eq_true, isPlainChar, Bool.and_eq_true, bne_iff_ne] at h
  apply List.any_eq_false.mpr
  intro c hc
  obtain ⟨⟨⟨-, hstar⟩, hmark⟩, hbracket⟩ := h c hc
  simp [hstar, hmark, hbracket]

theorem globOrEqual_of_isPlain {s : String} (h : isPlain s = true) (value : String) :
    globOrEqual s value = (s == value) := by
  simp [globOrEqual, NameMatch.ofPattern, isGlob_of_isPlain h, NameMatch.accepts]

namespace Package

/-- The parts of a package as they are printed: an epoch of zero is left out. -/
def identity (p : Package) : Nevra where
  name := p.name
  epoch := if p.evr.epoch = 0 then none else some p.evr.epoch
  version := some p.evr.version
  release := some p.evr.release
  arch := some p.arch

/-- The parts can be told apart in the printed identity, and none of them is a pattern. -/
structure Plain (p : Package) : Prop where
  name_colon : ':' ∉ p.name.toList
  version_dash : '-' ∉ p.evr.version.toList
  version_colon : ':' ∉ p.evr.version.toList
  release_dash : '-' ∉ p.evr.release.toList
  arch_dot : '.' ∉ p.arch.toList
  name : isPlain p.name = true
  version : isPlain p.evr.version = true
  release : isPlain p.evr.release = true
  arch : isPlain p.arch = true

/-- What every record has. -/
structure Complete (p : Package) : Prop where
  name : p.name ≠ ""
  version : p.evr.version ≠ ""
  release : p.evr.release ≠ ""
  arch : p.arch ≠ ""

end Package

section Plain

variable {c : Char} {s : String}

theorem isPlainChar_of_isDigit (h : c.isDigit = true) : isPlainChar c = true := by
  have hblank := isBlank_of_isDigit h
  have hne : ∀ mark : Char, mark.isDigit = false → c ≠ mark := by
    intro mark hmark heq
    simp [← heq, h] at hmark
  simp [isPlainChar, Selector.isExpressionChar, hblank, hne '<' (by decide), hne '>' (by decide),
    hne '=' (by decide), hne '!' (by decide), hne '*' (by decide), hne '?' (by decide),
    hne '[' (by decide)]

theorem isExpressionChar_of_isPlain (h : isPlain s = true) :
    ∀ c ∈ s.toList, Selector.isExpressionChar c = false := by
  intro c hc
  have hplain := List.all_eq_true.mp h c hc
  simp only [isPlainChar, Bool.and_eq_true, Bool.not_eq_true'] at hplain
  exact hplain.1.1.1

theorem isBlank_of_isPlain (h : isPlain s = true) : ∀ c ∈ s.toList, isBlank c = false := by
  intro c hc
  have hplain := isExpressionChar_of_isPlain h c hc
  simp only [Selector.isExpressionChar, Bool.or_eq_false_iff] at hplain
  exact hplain.2

theorem Selector.parse_of_isPlain (hsome : s ≠ "") (h : isPlain s = true) :
    Selector.parse s = .ok { pattern := some s, fallback := some { name := s } } := by
  have hblank := isBlank_of_isPlain h
  have htrim : trim s = s := by
    rw [trim, trimChars_eq_self (fun c hc => hblank c (List.mem_of_mem_head? hc))
      (fun c hc => hblank c (List.mem_of_getLast? hc)), String.ofList_toList]
  have hexpression : s.toList.any isExpressionChar = false := by
    simpa using isExpressionChar_of_isPlain h
  simp [Selector.parse, htrim, hsome, hexpression, isGlob_of_isPlain h]

end Plain

namespace Package

variable {p : Package} (hplain : p.Plain) (hall : p.Complete)
include hall

theorem Complete.nevra_eq : p.nevra = p.identity.text := by
  have hrelease : p.evr.hasRelease = true := by simp [Evr.hasRelease, hall.release]
  by_cases hepoch : p.evr.epoch = 0 <;>
    simp [nevra, identity, Evr.text, Nevra.text, hrelease, hepoch, String.append_assoc]

include hplain

theorem Plain.separable :
    Nevra.Separable p.name p.evr.version p.evr.release p.arch where
  name_ne := hall.name
  name_colon := hplain.name_colon
  version_ne := hall.version
  version_dash := hplain.version_dash
  version_colon := hplain.version_colon
  release_ne := hall.release
  release_dash := hplain.release_dash
  release_line := fun hline => absurd (isBlank_of_isPlain hplain.release _ hline) (by decide)
  arch_ne := hall.arch
  arch_dot := hplain.arch_dot

theorem Plain.isPlain_nevra : isPlain p.nevra = true := by
  have hdigits : ∀ n, (Nat.toDigits 10 n).all isPlainChar = true :=
    fun n => List.all_eq_true.mpr fun c hc => isPlainChar_of_isDigit (isDigit_of_mem_toDigits hc)
  have hname := hplain.name
  have hversion := hplain.version
  have hrelease := hplain.release
  have harch := hplain.arch
  rw [isPlain] at hname hversion hrelease harch
  have hdash : isPlainChar '-' = true := by decide
  have hdot : isPlainChar '.' = true := by decide
  have hcolon : isPlainChar ':' = true := by decide
  rw [isPlain, hall.nevra_eq, identity, Nevra.toList_text_full]
  cases (if p.evr.epoch = 0 then none else some p.evr.epoch) <;>
    simp only [Nevra.Tail.full, Nevra.Tail.chars, Nevra.epochChars, Option.map, Option.elim,
      List.all_append, List.all_cons, List.all_nil, hname, hversion, hrelease, harch, hdigits,
      hdash, hdot, hcolon, Bool.and_self]

/-- The full form is the first one in which the printed identity is read. -/
theorem Plain.readings_nevra : ∃ others,
    Nevra.readings p.nevra = (.nevra, p.identity) :: others := by
  have hread : Nevra.parse? p.nevra .nevra = some p.identity := by
    rw [hall.nevra_eq]
    exact (hplain.separable hall).parse?_text _
  exact ⟨_, by rw [Nevra.readings, NevraForm.all, List.filterMap_cons, hread]; rfl⟩

omit hall

theorem Plain.accepts_identity (q : Package) : p.identity.accepts q = true ↔
    q.name = p.name ∧ q.evr.version = p.evr.version ∧ q.evr.release = p.evr.release ∧
      q.arch = p.arch ∧ (p.evr.epoch ≠ 0 → q.evr.epoch = p.evr.epoch) := by
  simp only [Nevra.accepts, identity, globOrEqual_of_isPlain hplain.name, Option.all,
    globOrEqual_of_isPlain hplain.version, globOrEqual_of_isPlain hplain.release,
    globOrEqual_of_isPlain hplain.arch, Bool.and_eq_true, beq_iff_eq]
  by_cases hepoch : p.evr.epoch = 0
  · simp only [hepoch, if_true]
    grind
  · simp only [hepoch, if_false, beq_iff_eq]
    grind

end Package

namespace Selector

/-- The first reading decides where some package has its parts. -/
theorem query_of_readings {u : Universe} {text : String} {reading : NevraForm × Nevra}
    {others : List (NevraForm × Nevra)} {id : PackageId} (fallback : Option Dependency)
    (hreadings : Nevra.readings text = reading :: others)
    (hid : id ∈ ((Query.considered u).filter (.parts reading.2)).result) :
    ({ pattern := some text, fallback } : Selector).query u =
      (Query.considered u).filter (.parts reading.2) := by
  have hsome : ((Query.considered u).filter (.parts reading.2)).result.isEmpty = false := by
    cases hempty : ((Query.considered u).filter (.parts reading.2)).result.isEmpty with
    | false => rfl
    | true => exact absurd hid (PackageSet.isEmpty_iff.mp hempty id)
  simp [query, base, namedQueries, hreadings, firstNonempty?, hsome]

theorem mem_filter_parts {u : Universe} {n : Nevra} {id : PackageId} :
    id ∈ ((Query.considered u).filter (.parts n)).result ↔
      id ∈ u.considered ∧ n.accepts (u.get id) = true := by
  simp [Query.filter, Query.apply, Query.considered, Filter.accepts]

end Selector

namespace Universe

variable {generation : Nat} {repositories : List Repository} {excludes : List String}
  {arch : Option String} {u : Universe}

theorem requiredField_ne {repo : String} {index : Nat} {r : Record} {field value : String}
    (h : Package.requiredField repo index r field = .ok value) : value ≠ "" := by
  rw [Package.requiredField] at h
  split at h
  · cases h
  · cases h
  · next hne _ =>
    cases h
    exact hne

theorem complete_of_build (h : build generation repositories excludes arch = .ok u) {i : Nat}
    (hi : i < u.size) : (u.get i).Complete := by
  obtain ⟨e, -, hread⟩ := read_of_build h hi
  exact ⟨requiredField_ne hread.name, requiredField_ne hread.version,
    requiredField_ne hread.release, requiredField_ne hread.arch⟩

/-- A printed identity selects its package, and with it what differs at most in an epoch that
is not printed. No other reading of the text counts. -/
theorem nevra_selects (h : build generation repositories excludes arch = .ok u) {id : PackageId}
    (hid : id ∈ u.considered) (hplain : (u.get id).Plain) :
    ∃ s, Selector.parse (u.get id).nevra = .ok s ∧
      s.query u = (Query.considered u).filter (.parts (u.get id).identity) ∧
      id ∈ s.resolve u ∧
      ∀ q, q ∈ s.resolve u ↔ q ∈ u.considered ∧
        (u.get q).name = (u.get id).name ∧
        (u.get q).evr.version = (u.get id).evr.version ∧
        (u.get q).evr.release = (u.get id).evr.release ∧
        (u.get q).arch = (u.get id).arch ∧
        ((u.get id).evr.epoch ≠ 0 → (u.get q).evr.epoch = (u.get id).evr.epoch) := by
  have hall := complete_of_build h (lt_size_of_considered hid)
  have hsome : (u.get id).nevra ≠ "" := by
    rw [hall.nevra_eq, Nevra.text]
    simp [Package.identity, hall.name]
  obtain ⟨others, hreadings⟩ := hplain.readings_nevra hall
  have hself : (u.get id).identity.accepts (u.get id) = true := by
    simp [hplain.accepts_identity]
  have hmem := Selector.mem_filter_parts.mpr ⟨hid, hself⟩
  have hquery := Selector.query_of_readings (some { name := (u.get id).nevra }) hreadings hmem
  refine ⟨_, Selector.parse_of_isPlain hsome (hplain.isPlain_nevra hall), hquery, ?_, ?_⟩
  · rw [Selector.resolve, hquery]
    exact hmem
  · intro q
    rw [Selector.resolve, hquery, Selector.mem_filter_parts, hplain.accepts_identity]

/-- Two builds of one package that differ in the epoch, a package whose name and architecture
print the same, and a provide that is spelled so. -/
def likeNamed : List Repository :=
  [⟨"base", defaultPriority, false,
      [.noarch "a-b" "1", .noarch "a-b" "1" [("epoch", "3")], .noarch "a-b-1-1" "9",
        .noarch "c" "1" [("provides", "a-b-1-1.noarch")]]⟩]

theorem likeNamed_selects : ∃ u, build 1 likeNamed = .ok u ∧ 0 ∈ u.considered ∧
    (u.get 0).Plain ∧ (u.get 0).nevra = "a-b-1-1.noarch" ∧
    ∃ s, Selector.parse (u.get 0).nevra = .ok s ∧
      0 ∈ s.resolve u ∧ 1 ∈ s.resolve u ∧ 2 ∉ s.resolve u ∧ 3 ∉ s.resolve u := by
  have hbuild : build 1 likeNamed = .ok ((build 1 likeNamed).toOption.get (by decide +kernel)) :=
    eq_ok_of_toOption (Option.some_get _).symm
  have hin : 0 ∈ ((build 1 likeNamed).toOption.get (by decide +kernel)).considered := by
    decide +kernel
  have hplain : (((build 1 likeNamed).toOption.get (by decide +kernel)).get 0).Plain := by
    constructor <;> decide +kernel
  obtain ⟨s, hparse, -, hself, hiff⟩ := nevra_selects hbuild hin hplain
  refine ⟨_, hbuild, hin, hplain, by decide +kernel, s, hparse, hself, ?_, ?_, ?_⟩
  · rw [hiff]
    decide +kernel
  · rw [hiff]
    decide +kernel
  · rw [hiff]
    decide +kernel

end Universe

end Depsolve
