import Depsolve.Proofs.Plan.Conservation
import Depsolve.Proofs.Universe.Sample
/-!
# What is needed comes first, except behind a cycle

A package that waits for a cycle is put among the members of the cycle by name,
so it can come before what it needs although it is on no cycle itself.
-/
namespace Depsolve.Plan

open Relation

variable (u : Universe) (d : Decisions)

/-- Of two incoming packages of which the second needs the first, and not the other way round,
the first comes first exactly if it is not behind a cycle or is the lesser by name. -/
theorem materialize_pair_iff {a b : PackageId} (hpair : (a, b) ∈ d.order)
    (ha : a ∈ (materialize u d).inbound) (hb : b ∈ (materialize u d).inbound)
    (hback : ¬ ReflTransGen (Needs d.order (materialize u d).inbound) b a) :
    [a, b].Sublist (materialize u d).inbound ↔
      ¬ BehindCycle d.order (materialize u d).inbound a ∨ u.compareNames a b = .lt := by
  have hmem : ∀ id, id ∈ (materialize u d).inbound ↔ id ∈ (incoming u d).toList :=
    fun _ => mem_materialize_inbound u d
  have hne : a ≠ b := fun h => hback (h ▸ .refl)
  have hneeds : Needs d.order (incoming u d).toList a b :=
    ⟨hpair, hne, (hmem a).mp ha, (hmem b).mp hb⟩
  rw [behindCycle_congr hmem, materialize_inbound]
  exact arrange_pair_iff u (IdSet.toList_nodup _) hneeds

def appAndLibraries : Universe :=
  .sample [] [.noarch "app" "1", .noarch "libm" "1", .noarch "libn" "1"] (by decide +kernel)

/-- The libraries need each other, and both need the application. -/
def librariesNeedApp : Decisions where
  install := [0, 1, 2]
  order := [(1, 2), (2, 1), (0, 2), (0, 1)]

theorem librariesNeedApp_pair :
    [0, 2].Sublist (materialize appAndLibraries librariesNeedApp).inbound := by
  refine (materialize_pair_iff appAndLibraries librariesNeedApp (a := 0) (b := 2) (by decide)
    (by decide +kernel) (by decide +kernel) fun hback => ?_).mpr (.inl ?_)
  · obtain hzero | ⟨x, -, hx⟩ := hback.cases_tail
    · exact absurd hzero (by decide)
    · simpa [librariesNeedApp] using hx.1
  · rintro ⟨c, hcycle, hreach⟩
    have hlast : ∀ x, ¬ Needs librariesNeedApp.order
        (materialize appAndLibraries librariesNeedApp).inbound x 0 := by
      intro x hx
      simpa [librariesNeedApp] using hx.1
    obtain rfl | ⟨x, -, hx⟩ := hreach.cases_tail
    · obtain ⟨x, -, hx⟩ := TransGen.tail'_iff.mp hcycle
      exact hlast x hx
    · exact hlast x hx

/-- The libraries need each other, and the application needs one of them. -/
def appNeedsLibrary : Decisions where
  install := [0, 1, 2]
  order := [(1, 2), (2, 1), (2, 0)]

theorem appNeedsLibrary_pair :
    (2, 0) ∈ appNeedsLibrary.order ∧
    2 ∈ (materialize appAndLibraries appNeedsLibrary).inbound ∧
    0 ∈ (materialize appAndLibraries appNeedsLibrary).inbound ∧
    ¬ ReflTransGen (Needs appNeedsLibrary.order
      (materialize appAndLibraries appNeedsLibrary).inbound) 0 2 ∧
    ¬ [2, 0].Sublist (materialize appAndLibraries appNeedsLibrary).inbound := by
  refine ⟨by decide, by decide +kernel, by decide +kernel, fun hback => ?_, by decide +kernel⟩
  obtain hzero | ⟨x, hx, -⟩ := hback.cases_head
  · exact absurd hzero (by decide)
  · simpa [appNeedsLibrary] using hx.1

end Depsolve.Plan
