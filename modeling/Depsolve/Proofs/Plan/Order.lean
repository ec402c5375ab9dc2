import Depsolve.Proofs.Plan.Countdown
import Mathlib.Data.Fintype.Card
import Mathlib.Data.Set.Finite.List
import Mathlib.Logic.Relation
/-!
# What comes first

The order of incoming packages has two parts. In the first every package follows
all that it needs; the second holds exactly the packages behind a cycle, by name.
-/
namespace Depsolve

namespace Plan

open Relation

variable {order : List (PackageId × PackageId)} {ids : List PackageId}

/-- Two different packages of a list of which the order puts the first before the second. -/
def Needs (order : List (PackageId × PackageId)) (ids : List PackageId) (a b : PackageId) : Prop :=
  (a, b) ∈ order ∧ a ≠ b ∧ a ∈ ids ∧ b ∈ ids

/-- A package on a cycle, or one that has to wait for a package on a cycle. -/
def BehindCycle (order : List (PackageId × PackageId)) (ids : List PackageId)
    (id : PackageId) : Prop :=
  ∃ c, TransGen (Needs order ids) c c ∧ ReflTransGen (Needs order ids) c id

/-- A list cut in two: the packages that became ready, each after all that it needs, and those
that never did. -/
structure Split (order : List (PackageId × PackageId)) (ids done rest : List PackageId) :
    Prop where
  perm : (done ++ rest).Perm ids
  sublist : rest.Sublist ids
  after : ∀ front x back, done = front ++ x :: back → ∀ a, Needs order ids a x → a ∈ front
  stuck : ∀ x ∈ rest, ∃ a ∈ rest, (a, x) ∈ order ∧ a ≠ x

/-- Where nothing is ready, every package needs another one that is left. -/
theorem Split.ofStuck (h : ids.find? (isReady order ids) = none) : Split order ids [] ids := by
  refine ⟨.refl _, .refl _, by simp, ?_⟩
  intro x hx
  have hready : ¬ isReady order ids x = true := List.find?_eq_none.mp h x hx
  rw [isReady_iff] at hready
  push Not at hready
  obtain ⟨a, hmem, hne, hin⟩ := hready
  exact ⟨a, hin, hmem, hne⟩

theorem readyFirst_split (order : List (PackageId × PackageId)) {fuel : Nat}
    {ids : List PackageId} (hfuel : ids.length ≤ fuel) (hnodup : ids.Nodup) :
    ∃ done rest, readyFirst order fuel ids = done ++ rest ∧ Split order ids done rest := by
  induction fuel generalizing ids with
  | zero =>
    have hnil : ids = [] := List.length_eq_zero_iff.mp (Nat.le_zero.mp hfuel)
    subst hnil
    exact ⟨[], [], rfl, .refl _, .refl _, by simp, by simp⟩
  | succ fuel ih =>
    rw [readyFirst]
    split
    -- a ready package goes first, and the others split without it
    · rename_i id hfind
      have hid : id ∈ ids := List.mem_of_find?_eq_some hfind
      have hready := isReady_iff.mp (List.find?_some hfind)
      have hlen : (ids.erase id).length ≤ fuel := by
        have := List.length_erase_of_mem hid
        omega
      obtain ⟨done, rest, heq, hsplit⟩ := ih hlen (hnodup.erase id)
      refine ⟨id :: done, rest, by rw [heq]; rfl, ?_, ?_, ?_, hsplit.stuck⟩
      · exact (hsplit.perm.cons id).trans (List.perm_cons_erase hid).symm
      · exact hsplit.sublist.trans List.erase_sublist
      · intro front x back hdone a ha
        cases front with
        | nil =>
          obtain ⟨rfl, -⟩ := List.cons.inj hdone
          exact absurd ha.2.2.1 (hready a ha.1 ha.2.1)
        | cons y front =>
          obtain ⟨rfl, htail⟩ := List.cons.inj hdone
          by_cases hai : a = id
          · exact hai ▸ List.mem_cons_self
          · have hx : x ∈ ids.erase id := by
              refine hsplit.perm.subset (List.mem_append_left _ ?_)
              rw [htail]
              exact List.mem_append_right _ List.mem_cons_self
            have hae : a ∈ ids.erase id := (List.mem_erase_of_ne hai).mpr ha.2.2.1
            exact List.mem_cons_of_mem _ (hsplit.after front x back htail a ⟨ha.1, ha.2.1, hae, hx⟩)
    · rename_i hfind
      exact ⟨[], ids, rfl, .ofStuck hfind⟩

namespace Split

variable {done rest : List PackageId}

theorem nodup (h : Split order ids done rest) (hids : ids.Nodup) : (done ++ rest).Nodup :=
  h.perm.nodup_iff.mpr hids

theorem mem_or (h : Split order ids done rest) {x : PackageId} (hx : x ∈ ids) :
    x ∈ done ∨ x ∈ rest := List.mem_append.mp (h.perm.mem_iff.mpr hx)

theorem notMem_rest (h : Split order ids done rest) (hids : ids.Nodup) {x : PackageId}
    (hx : x ∈ done) : x ∉ rest := fun hr => (List.nodup_append.mp (h.nodup hids)).2.2 x hx x hr rfl

theorem idxOf_lt (h : Split order ids done rest) (hids : ids.Nodup) {a x : PackageId}
    (hx : x ∈ done) (hneeds : Needs order ids a x) :
    a ∈ done ∧ done.idxOf a < done.idxOf x := by
  obtain ⟨front, back, hdone⟩ := List.append_of_mem hx
  have ha := h.after front x back hdone a hneeds
  have hnodup : (front ++ x :: back).Nodup := hdone ▸ (List.nodup_append.mp (h.nodup hids)).1
  have hxf : x ∉ front := fun hf =>
    (List.nodup_append.mp hnodup).2.2 x hf x List.mem_cons_self rfl
  refine ⟨hdone ▸ List.mem_append_left _ ha, ?_⟩
  rw [hdone, List.idxOf_append_of_mem ha, List.idxOf_append_of_notMem hxf]
  exact Nat.lt_of_lt_of_le (List.idxOf_lt_length_iff.mpr ha) (Nat.le_add_right ..)

theorem idxOf_lt_of_transGen (h : Split order ids done rest) (hids : ids.Nodup) {a x : PackageId}
    (hx : x ∈ done) (hneeds : TransGen (Needs order ids) a x) :
    a ∈ done ∧ done.idxOf a < done.idxOf x := by
  induction hneeds using TransGen.head_induction_on with
  | single hab => exact h.idxOf_lt hids hx hab
  | head hab _ ih =>
    have hhead := h.idxOf_lt hids ih.1 hab
    exact ⟨hhead.1, hhead.2.trans ih.2⟩

theorem not_behindCycle (h : Split order ids done rest) (hids : ids.Nodup) {x : PackageId}
    (hx : x ∈ done) : ¬ BehindCycle order ids x := by
  rintro ⟨c, hcycle, hreach⟩
  have hc : c ∈ done := by
    rcases Relation.reflTransGen_iff_eq_or_transGen.mp hreach with rfl | htrans
    · exact hx
    · exact (h.idxOf_lt_of_transGen hids hx htrans).1
  exact Nat.lt_irrefl _ (h.idxOf_lt_of_transGen hids hc hcycle).2

/-- Going back from a package that never became ready one always finds another such package,
so among finitely many there is a cycle. -/
theorem behindCycle (h : Split order ids done rest) {x : PackageId} (hx : x ∈ rest) :
    BehindCycle order ids x := by
  by_contra hno
  let up : Type := { y // y ∈ rest ∧ ReflTransGen (Needs order ids) y x }
  have hfinite : Finite up := (rest.finite_toSet.subset fun y hy => hy.1).to_subtype
  let r : up → up → Prop := fun y z => TransGen (Needs order ids) y.1 z.1
  have htrans : IsTrans up r := ⟨fun _ _ _ hab hbc => hab.trans hbc⟩
  have hirrefl : Std.Irrefl r := ⟨fun y hy => hno ⟨y.1, hy, y.2.2⟩⟩
  have hwf : WellFounded r := Finite.wellFounded_of_trans_of_irrefl r
  obtain ⟨y, -, hmin⟩ := hwf.has_min Set.univ ⟨⟨x, hx, .refl⟩, trivial⟩
  obtain ⟨a, ha, hpair, hne⟩ := h.stuck y.1 y.2.1
  have hneeds : Needs order ids a y.1 :=
    ⟨hpair, hne, h.sublist.subset ha, h.sublist.subset y.2.1⟩
  exact hmin ⟨a, ha, .head hneeds y.2.2⟩ trivial (.single hneeds)

theorem mem_rest_iff (h : Split order ids done rest) (hids : ids.Nodup) {x : PackageId}
    (hx : x ∈ ids) : x ∈ rest ↔ BehindCycle order ids x :=
  ⟨h.behindCycle, fun hb => (h.mem_or hx).resolve_left fun hd => h.not_behindCycle hids hd hb⟩

/-- A needed package comes first if it became ready, and otherwise if it comes first among those
that did not. -/
theorem pair_sublist_iff (h : Split order ids done rest) (hids : ids.Nodup) {a b : PackageId}
    (hneeds : Needs order ids a b) :
    [a, b].Sublist (done ++ rest) ↔ ¬ BehindCycle order ids a ∨ [a, b].Sublist rest := by
  constructor
  · intro hsub
    by_cases ha : BehindCycle order ids a
    · obtain ⟨front, back, heq, hfront, hback⟩ := List.sublist_append_iff.mp hsub
      have harest : a ∈ rest := (h.mem_rest_iff hids hneeds.2.2.1).mpr ha
      cases front with
      | nil => exact .inr (heq ▸ hback)
      | cons x front =>
        have hx : x = a := (List.cons.inj heq).1.symm
        exact absurd harest (h.notMem_rest hids (hfront.subset (hx ▸ List.mem_cons_self)))
    · exact .inl ha
  · rintro (ha | hsub)
    · have hadone : a ∈ done :=
        (h.mem_or hneeds.2.2.1).resolve_right fun hr => ha (h.behindCycle hr)
      rcases h.mem_or hneeds.2.2.2 with hb | hb
      · obtain ⟨front, back, hdone⟩ := List.append_of_mem hb
        have hfront := h.after front b back hdone a hneeds
        rw [hdone, List.append_assoc]
        exact (List.singleton_sublist.mpr hfront).append
          (List.singleton_sublist.mpr List.mem_cons_self)
      · exact (List.singleton_sublist.mpr hadone).append (List.singleton_sublist.mpr hb)
    · exact hsub.trans (List.sublist_append_right done rest)

end Split

theorem needs_congr {ids' : List PackageId} (h : ∀ x, x ∈ ids ↔ x ∈ ids') :
    Needs order ids = Needs order ids' := by
  funext a b
  simp only [Needs, h]

theorem behindCycle_congr {ids' : List PackageId} (h : ∀ x, x ∈ ids ↔ x ∈ ids') :
    BehindCycle order ids = BehindCycle order ids' := by
  funext x
  simp only [BehindCycle, needs_congr h]

variable (u : Universe)

theorem arrange_split (order : List (PackageId × PackageId)) {ids : List PackageId}
    (hids : ids.Nodup) : ∃ done rest, arrange u order ids = done ++ rest ∧
      Split order (sortCmp u.compareNames ids) done rest := by
  have hperm : (sortCmp u.compareNames ids).Perm ids := sortBy_perm ..
  rw [arrange_eq_readyFirst hids]
  exact readyFirst_split order hperm.length_eq.le (hperm.nodup_iff.mpr hids)

theorem arrange_perm (order : List (PackageId × PackageId)) {ids : List PackageId}
    (hids : ids.Nodup) : (arrange u order ids).Perm ids := by
  obtain ⟨done, rest, heq, hsplit⟩ := arrange_split u order hids
  rw [heq]
  exact hsplit.perm.trans (sortBy_perm ..)

private theorem pair_sublist_or {l : List PackageId} {a b : PackageId} (ha : a ∈ l) (hb : b ∈ l)
    (hne : a ≠ b) : [a, b].Sublist l ∨ [b, a].Sublist l := by
  obtain ⟨front, back, rfl⟩ := List.append_of_mem ha
  rcases List.mem_append.mp hb with hb | hb
  · exact .inr ((List.singleton_sublist.mpr hb).append
      (List.singleton_sublist.mpr List.mem_cons_self))
  · have hback : b ∈ back := (List.mem_cons.mp hb).resolve_left (Ne.symm hne)
    exact .inl (((List.singleton_sublist.mpr hback).cons_cons a).trans
      (List.sublist_append_right front (a :: back)))

theorem pair_sublist_iff_lt {l : List PackageId}
    (hsorted : l.Pairwise fun a b => (u.compareNames a b).isLE = true) {a b : PackageId}
    (ha : a ∈ l) (hb : b ∈ l) (hne : a ≠ b) :
    [a, b].Sublist l ↔ u.compareNames a b = .lt := by
  have hle : ∀ x y, [x, y].Sublist l → (u.compareNames x y).isLE = true :=
    fun _ _ h => List.pairwise_iff_forall_sublist.mp hsorted h
  constructor
  · intro hsub
    rcases Ordering.isLE_iff_eq_lt_or_eq_eq.mp (hle a b hsub) with hlt | heq
    · exact hlt
    · exact absurd (u.eq_of_compareNames_eq heq) hne
  · intro hlt
    rcases pair_sublist_or ha hb hne with hab | hba
    · exact hab
    · exact absurd hlt (Std.OrientedCmp.not_lt_of_isLE (hle b a hba))

/-- A package comes after one that it needs unless that one is behind a cycle; then the names
decide. -/
theorem arrange_pair_iff {ids : List PackageId} (hids : ids.Nodup) {a b : PackageId}
    (hneeds : Needs order ids a b) :
    [a, b].Sublist (arrange u order ids) ↔
      ¬ BehindCycle order ids a ∨ u.compareNames a b = .lt := by
  obtain ⟨done, rest, heq, hsplit⟩ := arrange_split u order hids
  have hmem : ∀ x, x ∈ sortCmp u.compareNames ids ↔ x ∈ ids := fun x => mem_sortCmp
  have hsorted : (sortCmp u.compareNames ids).Nodup :=
    (sortBy_perm _ ids).nodup_iff.mpr hids
  have hneeds' : Needs order (sortCmp u.compareNames ids) a b := needs_congr hmem ▸ hneeds
  rw [heq, hsplit.pair_sublist_iff hsorted hneeds', behindCycle_congr hmem]
  refine or_congr_right' fun hbehind => ?_
  have hbehind' : BehindCycle order ids a := not_not.mp hbehind
  have ha : a ∈ rest :=
    (hsplit.mem_rest_iff hsorted hneeds'.2.2.1).mpr (behindCycle_congr hmem ▸ hbehind')
  have hb : b ∈ rest := by
    refine (hsplit.mem_rest_iff hsorted hneeds'.2.2.2).mpr (behindCycle_congr hmem ▸ ?_)
    obtain ⟨c, hcycle, hreach⟩ := hbehind'
    exact ⟨c, hcycle, hreach.tail hneeds⟩
  exact pair_sublist_iff_lt u ((sortCmp_pairwise ids).sublist hsplit.sublist) ha hb hneeds.2.1

end Plan

end Depsolve
