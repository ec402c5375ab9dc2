import Depsolve.Package
import Depsolve.Proofs.Dependency.Overlap
/-!
# Ranges as intervals

Where builds have a release, a larger one does not give a bound a smaller answer, and
this holds for a bound without a release as well. So the builds in a range form an
interval. It has no upper end if the operator has a greater sign, and no lower end if it
has a less sign. A build lies in a range exactly if the range overlaps what provides this
one build.
-/
namespace Depsolve

namespace Evr

variable {x y bound : Evr}

theorem isLE_compareVersion_of_compare (h : (x.compare y).isLE) : (compareVersion x y).isLE := by
  have hthen : x.compare y = (compareVersion x y).then (compareRelease x y) := by
    rw [compare, compareVersion, Ordering.then_assoc]
  rw [hthen] at h
  cases hversion : compareVersion x y with
  | lt | eq => rfl
  | gt =>
    rw [hversion] at h
    exact h

section Monotone

variable (hx : x.hasRelease = true) (hy : y.hasRelease = true) (hxy : (x.compare y).isLE)
include hx hy hxy

theorem compareForMatch_lt_of_isLE (h : y.compareForMatch bound = .lt) :
    x.compareForMatch bound = .lt := by
  cases hb : bound.hasRelease with
  | true =>
    rw [compareForMatch_of_releases hy hb] at h
    rw [compareForMatch_of_releases hx hb]
    exact Std.TransCmp.lt_of_isLE_of_lt hxy h
  | false =>
    rw [compareForMatch_of_missing (by simp [hb])] at h ⊢
    exact Std.TransCmp.lt_of_isLE_of_lt (isLE_compareVersion_of_compare hxy) h

theorem compareForMatch_isLE_of_isLE (h : (y.compareForMatch bound).isLE) :
    (x.compareForMatch bound).isLE := by
  cases hb : bound.hasRelease with
  | true =>
    rw [compareForMatch_of_releases hy hb] at h
    rw [compareForMatch_of_releases hx hb]
    exact Std.TransCmp.isLE_trans hxy h
  | false =>
    rw [compareForMatch_of_missing (by simp [hb])] at h ⊢
    exact Std.TransCmp.isLE_trans (isLE_compareVersion_of_compare hxy) h

end Monotone

end Evr

namespace Comparison

variable {c : Comparison} {o : Ordering}

@[simp] theorem accepts_lt : Comparison.lt.accepts o = true ↔ o = .lt := by
  cases o <;> decide

@[simp] theorem accepts_le : Comparison.le.accepts o = true ↔ o.isLE = true := by
  cases o <;> decide

@[simp] theorem accepts_gt : Comparison.gt.accepts o = true ↔ ¬ o.isLE = true := by
  cases o <;> decide

@[simp] theorem accepts_ge : Comparison.ge.accepts o = true ↔ o ≠ .lt := by
  cases o <;> decide

theorem accepts_eq_iff_le_ge : Comparison.eq.accepts o = true ↔
    Comparison.le.accepts o = true ∧ Comparison.ge.accepts o = true := by
  cases o <;> decide

/-- The operator that accepts one answer alone. -/
def exactly : Ordering → Comparison
  | .lt => .lt
  | .eq => .eq
  | .gt => .gt

theorem exactly_cases (o : Ordering) : exactly o = .lt ∨ exactly o = .eq ∨ exactly o = .gt := by
  cases o <;> decide

theorem accepts_iff_eq_exactly (hc : c = .lt ∨ c = .eq ∨ c = .gt) :
    c.accepts o = true ↔ c = exactly o := by
  rcases hc with rfl | rfl | rfl <;> cases o <;> decide

end Comparison

namespace Dependency

/-! ## The overlap of two dependencies -/

theorem rangesMeet_comm (a b : Comparison × Evr) : rangesMeet a b = rangesMeet b a := by
  have hswap : b.2.compareForMatch a.2 = (a.2.compareForMatch b.2).swap :=
    Std.OrientedCmp.eq_swap
  rw [rangesMeet, rangesMeet, hswap]
  cases a.2.compareForMatch b.2 with
  | lt | gt => exact Bool.or_comm _ _
  | eq =>
    show (_ && _ || _ && _ || _ && _) = (_ && _ || _ && _ || _ && _)
    rw [Bool.and_comm a.1.hasEqual, Bool.and_comm a.1.hasLess, Bool.and_comm a.1.hasGreater]

theorem overlaps_comm (a b : Dependency) : a.overlaps b = b.overlaps a := by
  rw [overlaps, overlaps, Bool.beq_comm]
  cases a.constraint with
  | none => cases b.constraint <;> rfl
  | some x =>
    cases b.constraint with
    | none => rfl
    | some y =>
      have hmeet : rangesMeet x y = rangesMeet y x := rangesMeet_comm x y
      show (_ && rangesMeet x y) = (_ && rangesMeet y x)
      rw [hmeet]

/-! ## One operator and one bound -/

section Range

variable {d : Dependency} {c : Comparison} {bound x y z : Evr}

theorem matchesEvr_of_larger (hd : d.constraint = some (c, bound)) (hc : c = .gt ∨ c = .ge)
    (hx : x.hasRelease = true) (hy : y.hasRelease = true) (hxy : (x.compare y).isLE)
    (h : d.matchesEvr x = true) : d.matchesEvr y = true := by
  rw [matchesEvr_eq_accepts hd] at h ⊢
  rcases hc with rfl | rfl
  · rw [Comparison.accepts_gt] at h ⊢
    intro hle
    exact h (Evr.compareForMatch_isLE_of_isLE hx hy hxy hle)
  · rw [Comparison.accepts_ge] at h ⊢
    intro hlt
    exact h (Evr.compareForMatch_lt_of_isLE hx hy hxy hlt)

theorem matchesEvr_of_smaller (hd : d.constraint = some (c, bound)) (hc : c = .lt ∨ c = .le)
    (hx : x.hasRelease = true) (hy : y.hasRelease = true) (hxy : (x.compare y).isLE)
    (h : d.matchesEvr y = true) : d.matchesEvr x = true := by
  rw [matchesEvr_eq_accepts hd] at h ⊢
  rcases hc with rfl | rfl
  · rw [Comparison.accepts_lt] at h ⊢
    exact Evr.compareForMatch_lt_of_isLE hx hy hxy h
  · rw [Comparison.accepts_le] at h ⊢
    exact Evr.compareForMatch_isLE_of_isLE hx hy hxy h

theorem matchesEvr_of_between (hd : d.constraint = some (c, bound))
    (hx : x.hasRelease = true) (hy : y.hasRelease = true) (hz : z.hasRelease = true)
    (hxy : (x.compare y).isLE) (hyz : (y.compare z).isLE)
    (hmatchx : d.matchesEvr x = true) (hmatchz : d.matchesEvr z = true) :
    d.matchesEvr y = true := by
  cases c with
  | gt => exact matchesEvr_of_larger hd (.inl rfl) hx hy hxy hmatchx
  | ge => exact matchesEvr_of_larger hd (.inr rfl) hx hy hxy hmatchx
  | lt => exact matchesEvr_of_smaller hd (.inl rfl) hy hz hyz hmatchz
  | le => exact matchesEvr_of_smaller hd (.inr rfl) hy hz hyz hmatchz
  | eq =>
    rw [matchesEvr_eq_accepts hd, Comparison.accepts_eq_iff_le_ge] at hmatchx hmatchz ⊢
    constructor
    · exact matchesEvr_of_smaller (d := ⟨d.name, some (.le, bound)⟩) rfl (.inr rfl) hy hz hyz
        hmatchz.1
    · exact matchesEvr_of_larger (d := ⟨d.name, some (.ge, bound)⟩) rfl (.inr rfl) hx hy hxy
        hmatchx.2

/-- Of the three operators without an overlap, one has the build in its range. -/
theorem existsUnique_matchesEvr (name : String) (bound e : Evr) :
    ∃! c : Comparison, (c = .lt ∨ c = .eq ∨ c = .gt) ∧
      matchesEvr ⟨name, some (c, bound)⟩ e = true := by
  have hmatch : ∀ c, matchesEvr ⟨name, some (c, bound)⟩ e = c.accepts (e.compareForMatch bound) :=
    fun _ => rfl
  have hrange := Comparison.exactly_cases (e.compareForMatch bound)
  refine ⟨Comparison.exactly (e.compareForMatch bound), ⟨hrange, ?_⟩, ?_⟩
  · rw [hmatch, Comparison.accepts_iff_eq_exactly hrange]
  · intro c hc
    rw [hmatch] at hc
    exact (Comparison.accepts_iff_eq_exactly hc.1).mp hc.2

end Range

/-- Overlap does not depend on the side. A dependency overlaps what provides one build of its
name exactly if the build matches it, so obsoleting a package is overlapping its provide of
itself. The builds with a release that match one operator and bound are an interval without
upper end for the greater signs and without lower end for the less signs, and each build
matches one of less, equal and greater. -/
theorem matching_laws :
    (∀ a b : Dependency, a.overlaps b = b.overlaps a) ∧
    (∀ (d : Dependency) (e : Evr), d.overlaps ⟨d.name, some (.eq, e)⟩ = d.matchesEvr e) ∧
    (∀ p q : Package, p.obsoletesPackage q = p.obsoletes.any fun o => o.overlaps q.selfProvide) ∧
    (∀ (d : Dependency) (c : Comparison) (bound : Evr), d.constraint = some (c, bound) →
      (∀ x y z : Evr, x.hasRelease = true → y.hasRelease = true → z.hasRelease = true →
        (x.compare y).isLE → (y.compare z).isLE →
        d.matchesEvr x = true → d.matchesEvr z = true → d.matchesEvr y = true) ∧
      (c = .gt ∨ c = .ge → ∀ x y : Evr, x.hasRelease = true → y.hasRelease = true →
        (x.compare y).isLE → d.matchesEvr x = true → d.matchesEvr y = true) ∧
      (c = .lt ∨ c = .le → ∀ x y : Evr, x.hasRelease = true → y.hasRelease = true →
        (x.compare y).isLE → d.matchesEvr y = true → d.matchesEvr x = true)) ∧
    ∀ (name : String) (bound e : Evr), ∃! c : Comparison, (c = .lt ∨ c = .eq ∨ c = .gt) ∧
      matchesEvr ⟨name, some (c, bound)⟩ e = true := by
  refine ⟨overlaps_comm, ?_, ?_, ?_, existsUnique_matchesEvr⟩
  · intro d e
    rw [overlaps_exact, beq_self_eq_true, Bool.true_and]
  · intro p q
    simp only [Package.obsoletesPackage, Package.selfProvide, overlaps_exact]
  · intro d c bound hd
    constructor
    · intro x y z hx hy hz hxy hyz
      exact matchesEvr_of_between hd hx hy hz hxy hyz
    constructor
    · intro hc x y hx hy hxy
      exact matchesEvr_of_larger hd hc hx hy hxy
    · intro hc x y hx hy hxy
      exact matchesEvr_of_smaller hd hc hx hy hxy

def atLeastTwo : Dependency := ⟨"tool", some (.ge, ⟨0, "2.0", ""⟩)⟩

/-- A bound without a release has all builds of its version in the range. -/
theorem atLeastTwo_matching :
    atLeastTwo.matchesEvr ⟨0, "2.0", "1"⟩ = true ∧
    atLeastTwo.matchesEvr ⟨0, "2.0", "7"⟩ = true ∧
    atLeastTwo.matchesEvr ⟨1, "1.9", "1"⟩ = true := by
  have hfirst : atLeastTwo.matchesEvr ⟨0, "2.0", "1"⟩ = true := by decide +kernel
  have hlast : atLeastTwo.matchesEvr ⟨1, "1.9", "1"⟩ = true := by decide +kernel
  have hinterval := (matching_laws.2.2.2.1 atLeastTwo .ge ⟨0, "2.0", ""⟩ rfl).1
    ⟨0, "2.0", "1"⟩ ⟨0, "2.0", "7"⟩ ⟨1, "1.9", "1"⟩ (by decide +kernel) (by decide +kernel)
    (by decide +kernel) (by decide +kernel) (by decide +kernel)
  exact ⟨hfirst, hinterval hfirst hlast, hlast⟩

end Dependency

end Depsolve
