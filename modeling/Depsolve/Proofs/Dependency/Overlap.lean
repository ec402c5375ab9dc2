import Depsolve.Dependency
import Depsolve.Proofs.Version.Density
import Mathlib.Data.Fintype.Defs
/-!
# Overlapping ranges

A build gives an answer to a bound: how it compares with it. Which pairs of answers
builds give to two bounds depends on the order of the bounds alone, since the order
of versions is dense and has no ends. Two ranges overlap exactly if they both accept
one of these pairs.
-/
namespace Depsolve

namespace Evr

variable {x y e : Evr}

/-- The order by epoch and version. -/
def compareVersion (a b : Evr) : Ordering :=
  (Ord.compare a.epoch b.epoch).then (Version.compare a.version b.version)

instance : Std.TransCmp compareVersion := by
  have hversion := transCmp_comap Version.compare version
  exact inferInstanceAs (Std.TransCmp (compareLex (compareOn epoch)
    fun a b => Version.compare a.version b.version))

theorem compareForMatch_eq (a b : Evr) : a.compareForMatch b = (compareVersion a b).then
    (if a.hasRelease && b.hasRelease then Version.compare a.release b.release else .eq) := by
  rw [compareForMatch, compareVersion, Ordering.then_assoc]

instance : Std.OrientedCmp compareForMatch where
  eq_swap {a b} := by
    have hversion : compareVersion a b = (compareVersion b a).swap := Std.OrientedCmp.eq_swap
    have hrelease : Version.compare a.release b.release =
        (Version.compare b.release a.release).swap := Std.OrientedCmp.eq_swap
    rw [compareForMatch_eq, compareForMatch_eq, Ordering.swap_then, hversion, hrelease,
      Bool.and_comm, apply_ite Ordering.swap]
    rfl

theorem compareForMatch_of_releases (hx : x.hasRelease = true) (hy : y.hasRelease = true) :
    x.compareForMatch y = x.compare y := by
  rw [compareForMatch, compare, compareRelease, hx, hy]
  rfl

theorem compareForMatch_of_missing (h : (x.hasRelease && y.hasRelease) = false) :
    x.compareForMatch y = compareVersion x y := by
  rw [compareForMatch_eq, h]
  cases compareVersion x y <;> rfl

theorem compareForMatch_of_ne (h : compareVersion x y ≠ .eq) :
    x.compareForMatch y = compareVersion x y := by
  rw [compareForMatch_eq]
  cases hversion : compareVersion x y with
  | eq => exact absurd hversion h
  | lt | gt => rfl

theorem compareForMatch_of_lt (h : compareVersion x y = .lt) : x.compareForMatch y = .lt := by
  rw [compareForMatch_of_ne (by simp [h]), h]

theorem isLE_compareVersion (h : x.compareForMatch y = .lt) : (compareVersion x y).isLE := by
  rw [compareForMatch_eq, Ordering.then_eq_lt] at h
  rcases h with hlt | ⟨heq, -⟩
  · rw [hlt]; rfl
  · rw [heq]; rfl

/-- The answers that builds give to two bounds that compare as `bounds`. -/
def answers (bounds first second : Ordering) : Bool :=
  match bounds with
  | .lt => first == .gt || second == .lt
  | .eq => first == second
  | .gt => first == .lt || second == .gt

theorem answers_compare {α : Type} (cmp : α → α → Ordering) [Std.TransCmp cmp] (x y e : α) :
    answers (cmp x y) (cmp e x) (cmp e y) = true := by
  cases hxy : cmp x y with
  | lt =>
    cases hex : cmp e x with
    | gt => rfl
    | lt | eq =>
      have hle : (cmp e x).isLE := by rw [hex]; rfl
      have hlt : cmp e y = .lt := Std.TransCmp.lt_of_isLE_of_lt hle hxy
      rw [hlt]
      rfl
  | eq =>
    have heq : cmp e x = cmp e y := Std.TransCmp.congr_right hxy
    rw [heq]
    exact beq_self_eq_true _
  | gt =>
    cases hey : cmp e y with
    | gt => simp [answers]
    | lt | eq =>
      have hle : (cmp e y).isLE := by rw [hey]; rfl
      have hyx : cmp y x = .lt := Std.OrientedCmp.lt_of_gt hxy
      have hlt : cmp e x = .lt := Std.TransCmp.lt_of_isLE_of_lt hle hyx
      rw [hlt]
      rfl

/-- Builds with a release give no other answers, unless one bound has a release and the
other has none. -/
theorem answers_compareForMatch (hrelease : x.hasRelease = y.hasRelease)
    (he : e.hasRelease = true) :
    answers (x.compareForMatch y) (e.compareForMatch x) (e.compareForMatch y) = true := by
  cases hx : x.hasRelease with
  | true =>
    have hy : y.hasRelease = true := hrelease ▸ hx
    rw [compareForMatch_of_releases hx hy, compareForMatch_of_releases he hx,
      compareForMatch_of_releases he hy]
    exact answers_compare compare x y e
  | false =>
    have hy : y.hasRelease = false := hrelease ▸ hx
    rw [compareForMatch_of_missing (by simp [hx]), compareForMatch_of_missing (by simp [hx]),
      compareForMatch_of_missing (by simp [hy])]
    exact answers_compare compareVersion x y e

/-! ## Builds around two bounds -/

def released (e : Evr) : Evr := if e.hasRelease then e else { e with release := "1" }

def below (e : Evr) : Evr := { e with version := e.version ++ "~", release := "1" }

def above (e : Evr) : Evr := { e with version := e.version ++ "^", release := "1" }

theorem hasRelease_released (e : Evr) : e.released.hasRelease = true := by
  rw [released]
  split
  · assumption
  · rfl

theorem compareForMatch_released_self (e : Evr) : e.released.compareForMatch e = .eq := by
  rw [released]
  split
  · exact Std.ReflCmp.compare_self
  · next hnone =>
    have hself : compareVersion e e = .eq := Std.ReflCmp.compare_self
    rw [compareForMatch_of_missing (by simp [hnone])]
    exact hself

theorem compareForMatch_released (h : x.compareForMatch y ≠ .eq) :
    x.released.compareForMatch y = x.compareForMatch y := by
  rw [released]
  split
  · rfl
  · next hnone =>
    have hversion : x.compareForMatch y = compareVersion x y :=
      compareForMatch_of_missing (by simp [hnone])
    rw [hversion] at h ⊢
    exact compareForMatch_of_ne h

theorem compareVersion_below (e : Evr) : compareVersion e.below e = .lt := by
  have hepoch : Ord.compare e.epoch e.epoch = .eq := Std.ReflCmp.compare_self
  show (Ord.compare e.epoch e.epoch).then _ = .lt
  rw [hepoch]
  exact Version.compare_tilde e.version

theorem compareVersion_above (e : Evr) : compareVersion e e.above = .lt := by
  have hepoch : Ord.compare e.epoch e.epoch = .eq := Std.ReflCmp.compare_self
  show (Ord.compare e.epoch e.epoch).then _ = .lt
  rw [hepoch]
  exact Version.compare_caret e.version

theorem exists_amid (h : x.compareForMatch y = .lt) : ∃ e : Evr, e.hasRelease = true ∧
    x.compareForMatch e = .lt ∧ e.compareForMatch y = .lt := by
  rw [compareForMatch, Ordering.then_eq_lt, Ordering.then_eq_lt] at h
  -- where the bounds first differ, something fits in between
  rcases h with hepoch | ⟨hepoch, hversion | ⟨hversion, hrelease⟩⟩
  · refine ⟨x.above, rfl, compareForMatch_of_lt (compareVersion_above x), ?_⟩
    apply compareForMatch_of_lt
    show (Ord.compare x.epoch y.epoch).then _ = .lt
    rw [hepoch]
    rfl
  · obtain ⟨w, -, hxw, hwy⟩ := Version.exists_between hversion
    refine ⟨{ x with version := w, release := "1" }, rfl, compareForMatch_of_lt ?_,
      compareForMatch_of_lt ?_⟩
    · have hself : Ord.compare x.epoch x.epoch = .eq := Std.ReflCmp.compare_self
      show (Ord.compare x.epoch x.epoch).then _ = .lt
      rw [hself]
      exact hxw
    · show (Ord.compare x.epoch y.epoch).then _ = .lt
      rw [hepoch]
      exact hwy
  · split at hrelease
    · next hboth =>
      obtain ⟨hx, hy⟩ := Bool.and_eq_true_iff.mp hboth
      obtain ⟨w, hw, hxw, hwy⟩ := Version.exists_between hrelease
      have hrelease' : (⟨x.epoch, x.version, w⟩ : Evr).hasRelease = true := by
        simpa [hasRelease] using hw
      have hself : compareVersion x x = .eq := Std.ReflCmp.compare_self
      refine ⟨⟨x.epoch, x.version, w⟩, hrelease', ?_, ?_⟩
      · rw [compareForMatch_eq, hx, hrelease']
        show (compareVersion x x).then _ = .lt
        rw [hself]
        exact hxw
      · rw [compareForMatch_eq, hy, hrelease']
        show (compareVersion x y).then _ = .lt
        rw [compareVersion, hepoch, hversion]
        exact hwy
    · exact absurd hrelease (by decide)

theorem exists_above (h : x.compareForMatch y = .lt) (answer : Ordering) : ∃ e : Evr,
    e.hasRelease = true ∧ e.compareForMatch x = .gt ∧ e.compareForMatch y = answer := by
  cases answer with
  | lt =>
    obtain ⟨e, he, hxe, hey⟩ := exists_amid h
    exact ⟨e, he, Std.OrientedCmp.gt_of_lt hxe, hey⟩
  | eq =>
    have hyx : y.compareForMatch x = .gt := Std.OrientedCmp.gt_of_lt h
    refine ⟨y.released, hasRelease_released y, ?_, compareForMatch_released_self y⟩
    rw [compareForMatch_released (by simp [hyx]), hyx]
  | gt =>
    have hlt : compareVersion x y.above = .lt :=
      Std.TransCmp.lt_of_isLE_of_lt (isLE_compareVersion h) (compareVersion_above y)
    exact ⟨y.above, rfl, Std.OrientedCmp.gt_of_lt (compareForMatch_of_lt hlt),
      Std.OrientedCmp.gt_of_lt (compareForMatch_of_lt (compareVersion_above y))⟩

theorem exists_below (h : x.compareForMatch y = .lt) (answer : Ordering) : ∃ e : Evr,
    e.hasRelease = true ∧ e.compareForMatch x = answer ∧ e.compareForMatch y = .lt := by
  cases answer with
  | lt =>
    have hlt : compareVersion x.below y = .lt :=
      Std.TransCmp.lt_of_lt_of_isLE (compareVersion_below x) (isLE_compareVersion h)
    exact ⟨x.below, rfl, compareForMatch_of_lt (compareVersion_below x),
      compareForMatch_of_lt hlt⟩
  | eq =>
    refine ⟨x.released, hasRelease_released x, compareForMatch_released_self x, ?_⟩
    rw [compareForMatch_released (by simp [h]), h]
  | gt =>
    obtain ⟨e, he, hxe, hey⟩ := exists_amid h
    exact ⟨e, he, Std.OrientedCmp.gt_of_lt hxe, hey⟩

/-- Builds give the same answer to two bounds that agree, and each answer occurs. -/
theorem exists_alike (h : x.compareForMatch y = .eq) (answer : Ordering) : ∃ e : Evr,
    e.hasRelease = true ∧ e.compareForMatch x = answer ∧ e.compareForMatch y = answer := by
  have hversion : compareVersion x y = .eq := by
    rw [compareForMatch_eq, Ordering.then_eq_eq] at h
    exact h.1
  cases answer with
  | lt =>
    have hlt : compareVersion x.below y = .lt :=
      (Std.TransCmp.congr_right hversion).symm.trans (compareVersion_below x)
    exact ⟨x.below, rfl, compareForMatch_of_lt (compareVersion_below x),
      compareForMatch_of_lt hlt⟩
  | eq =>
    cases hx : x.hasRelease with
    | true => exact ⟨x, hx, Std.ReflCmp.compare_self, h⟩
    | false =>
      have hreleased : compareVersion y.released x = compareVersion y x := by
        rw [released]
        split <;> rfl
      refine ⟨y.released, hasRelease_released y, ?_, compareForMatch_released_self y⟩
      rw [compareForMatch_of_missing (by simp [hx]), hreleased]
      exact Std.OrientedCmp.eq_symm hversion
  | gt =>
    have hlt : compareVersion y x.above = .lt :=
      (Std.TransCmp.congr_left hversion).symm.trans (compareVersion_above x)
    exact ⟨x.above, rfl, Std.OrientedCmp.gt_of_lt (compareForMatch_of_lt (compareVersion_above x)),
      Std.OrientedCmp.gt_of_lt (compareForMatch_of_lt hlt)⟩

theorem exists_of_answers {first second : Ordering}
    (h : answers (x.compareForMatch y) first second = true) : ∃ e : Evr,
    e.hasRelease = true ∧ e.compareForMatch x = first ∧ e.compareForMatch y = second := by
  cases hxy : x.compareForMatch y with
  | lt =>
    rw [hxy, answers, Bool.or_eq_true, beq_iff_eq, beq_iff_eq] at h
    rcases h with rfl | rfl
    · exact exists_above hxy second
    · exact exists_below hxy first
  | eq =>
    rw [hxy, answers, beq_iff_eq] at h
    exact h ▸ exists_alike hxy first
  | gt =>
    have hyx : y.compareForMatch x = .lt := Std.OrientedCmp.lt_of_gt hxy
    rw [hxy, answers, Bool.or_eq_true, beq_iff_eq, beq_iff_eq] at h
    rcases h with rfl | rfl
    · obtain ⟨e, he, hy, hx⟩ := exists_below hyx second
      exact ⟨e, he, hx, hy⟩
    · obtain ⟨e, he, hy, hx⟩ := exists_above hyx first
      exact ⟨e, he, hx, hy⟩

end Evr

namespace Dependency

/-- Ranges meet exactly if they accept a pair of answers that builds give to their bounds. -/
theorem rangesMeet_iff (a b : Comparison × Evr) : rangesMeet a b = true ↔
    ∃ first second, Evr.answers (a.2.compareForMatch b.2) first second = true ∧
      a.1.accepts first = true ∧ b.1.accepts second = true := by
  obtain ⟨c, x⟩ := a
  obtain ⟨d, y⟩ := b
  rw [rangesMeet]
  dsimp only
  generalize x.compareForMatch y = bounds
  cases c <;> cases d <;> cases bounds <;> decide

variable {a b : Dependency} {c d : Comparison} {x y : Evr}

theorem overlaps_eq_rangesMeet (hname : a.name = b.name) (ha : a.constraint = some (c, x))
    (hb : b.constraint = some (d, y)) : a.overlaps b = rangesMeet (c, x) (d, y) := by
  rw [overlaps, ha, hb, hname, beq_self_eq_true, Bool.true_and]

theorem matchesEvr_eq_accepts (ha : a.constraint = some (c, x)) (e : Evr) :
    a.matchesEvr e = c.accepts (e.compareForMatch x) := by
  rw [matchesEvr, ha]

theorem overlaps_exact (d : Dependency) (name : String) (e : Evr) :
    d.overlaps ⟨name, some (.eq, e)⟩ = (d.name == name && d.matchesEvr e) := by
  rw [overlaps, matchesEvr]
  cases d.constraint with
  | none => rfl
  | some range =>
    obtain ⟨c, bound⟩ := range
    have hswap : e.compareForMatch bound = (bound.compareForMatch e).swap :=
      Std.OrientedCmp.eq_swap
    simp only [rangesMeet, hswap]
    cases bound.compareForMatch e <;> cases c <;> rfl

/-- Where two ranges over one name overlap, a build with a release lies in both. Where both
bounds have a release, or neither has one, the ranges overlap only then. Between versions
that differ there is always another one, so `> x` and `< y` overlap wherever `x` is the
smaller bound. -/
theorem overlaps_common (hname : a.name = b.name) (ha : a.constraint = some (c, x))
    (hb : b.constraint = some (d, y)) :
    (a.overlaps b = true →
      ∃ e : Evr, e.hasRelease = true ∧ a.matchesEvr e = true ∧ b.matchesEvr e = true) ∧
    (x.hasRelease = y.hasRelease →
      (∃ e : Evr, e.hasRelease = true ∧ a.matchesEvr e = true ∧ b.matchesEvr e = true) →
      a.overlaps b = true) ∧
    ∀ u v : String, Version.compare u v = .lt →
      ∃ w, w ≠ "" ∧ Version.compare u w = .lt ∧ Version.compare w v = .lt := by
  simp only [overlaps_eq_rangesMeet hname ha hb, matchesEvr_eq_accepts ha,
    matchesEvr_eq_accepts hb, rangesMeet_iff]
  refine ⟨?_, ?_, fun _ _ => Version.exists_between⟩
  · rintro ⟨first, second, hanswers, hc, hd⟩
    obtain ⟨e, he, rfl, rfl⟩ := Evr.exists_of_answers hanswers
    exact ⟨e, he, hc, hd⟩
  · rintro hrelease ⟨e, he, hc, hd⟩
    exact ⟨_, _, Evr.answers_compareForMatch hrelease he, hc, hd⟩

def laterThanTwo : Dependency := ⟨"tool", some (.gt, ⟨0, "1.0", "2"⟩)⟩

def earlierThanPatch : Dependency := ⟨"tool", some (.lt, ⟨0, "1.0", "2^"⟩)⟩

/-- There is room even between a release and the same one with a caret. -/
theorem narrowRanges_common : laterThanTwo.overlaps earlierThanPatch = true ∧ ∃ e : Evr,
    e.hasRelease = true ∧ laterThanTwo.matchesEvr e = true ∧
      earlierThanPatch.matchesEvr e = true := by
  have hoverlaps : laterThanTwo.overlaps earlierThanPatch = true := by decide +kernel
  have hcommon := overlaps_common (a := laterThanTwo) (b := earlierThanPatch) rfl rfl rfl
  exact ⟨hoverlaps, hcommon.1 hoverlaps⟩

-- with a release on one side only, a common build does not make ranges overlap
example : let upTo : Dependency := ⟨"tool", some (.le, ⟨0, "1.0", ""⟩)⟩
    let from_ : Dependency := ⟨"tool", some (.gt, ⟨0, "1.0", "1"⟩)⟩
    upTo.matchesEvr ⟨0, "1.0", "2"⟩ = true ∧ from_.matchesEvr ⟨0, "1.0", "2"⟩ = true ∧
      upTo.overlaps from_ = false := by decide +kernel

end Dependency

end Depsolve
