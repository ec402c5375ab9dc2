import Depsolve.Proofs.Plan.Layout
import Depsolve.Proofs.Plan.Precedence
/-!
# One plan for the same decisions

It does not matter how often decisions name a package or a pair, or in which order. Where
no incoming package needs itself in a circle, one order of them takes at each place the
least by name of all that need nothing more, and the plan has this order.
-/
namespace Depsolve.Plan

open Relation Universe

/-- Whether everything that a package needs is among those that are done. -/
def Met (order : List (PackageId × PackageId)) (ids done : List PackageId) (id : PackageId) :
    Prop :=
  ∀ a, Needs order ids a id → a ∈ done

/-- At each place stands the least by name of the packages that are not before it and need nothing
but what is before it. -/
def TakesLeast (u : Universe) (order : List (PackageId × PackageId)) (ids l : List PackageId) :
    Prop :=
  ∀ front x back, l = front ++ x :: back → Met order ids front x ∧
    ∀ y ∈ ids, y ∉ front → Met order ids front y → (u.compareNames x y).isLE = true

variable {u : Universe} {order : List (PackageId × PackageId)} {ids l : List PackageId}
  {x y : PackageId}

theorem met_nil_iff (hx : x ∈ ids) : Met order ids [] x ↔ isReady order ids x = true := by
  rw [isReady_iff]
  constructor
  · intro h a hpair hne hin
    exact absurd (h a ⟨hpair, hne, hin, hx⟩) List.not_mem_nil
  · intro h a hneeds
    exact absurd hneeds.2.2.1 (h a hneeds.1 hneeds.2.1)

theorem met_cons_iff {front : List PackageId} (hnodup : ids.Nodup) (hy : y ∈ ids.erase x) :
    Met order ids (x :: front) y ↔ Met order (ids.erase x) front y := by
  constructor
  · intro h a hneeds
    have ha := hnodup.mem_erase_iff.mp hneeds.2.2.1
    have hmem := h a ⟨hneeds.1, hneeds.2.1, ha.2, List.mem_of_mem_erase hy⟩
    exact (List.mem_cons.mp hmem).resolve_left ha.1
  · intro h a hneeds
    by_cases hax : a = x
    · exact hax ▸ List.mem_cons_self
    · apply List.mem_cons_of_mem
      exact h a ⟨hneeds.1, hneeds.2.1, (List.mem_erase_of_ne hax).mpr hneeds.2.2.1, hy⟩

theorem takesLeast_cons_iff (hnodup : ids.Nodup) (hx : x ∈ ids) (hl : ∀ y ∈ l, y ∈ ids.erase x) :
    TakesLeast u order ids (x :: l) ↔
      (isReady order ids x = true ∧
        ∀ y ∈ ids, isReady order ids y = true → (u.compareNames x y).isLE = true) ∧
      TakesLeast u order (ids.erase x) l := by
  constructor
  · intro h
    have hfirst := h [] x l rfl
    constructor
    · constructor
      · exact (met_nil_iff hx).mp hfirst.1
      · intro y hy hready
        exact hfirst.2 y hy List.not_mem_nil ((met_nil_iff hy).mpr hready)
    · intro front z back hsplit
      have hz : z ∈ ids.erase x := hl z (by simp [hsplit])
      have hrest := h (x :: front) z back (by rw [hsplit]; rfl)
      constructor
      · exact (met_cons_iff hnodup hz).mp hrest.1
      · intro y hy hfront hmet
        have hyx := hnodup.mem_erase_iff.mp hy
        apply hrest.2 y hyx.2 ?_ ((met_cons_iff hnodup hy).mpr hmet)
        simp [hyx.1, hfront]
  · intro h front z back hsplit
    obtain ⟨⟨hready, hleast⟩, hrest⟩ := h
    cases front with
    | nil =>
      obtain ⟨rfl, -⟩ := List.cons.inj hsplit
      constructor
      · exact (met_nil_iff hx).mpr hready
      · intro y hy _ hmet
        exact hleast y hy ((met_nil_iff hy).mp hmet)
    | cons w front =>
      obtain ⟨rfl, htail⟩ := List.cons.inj hsplit
      have hz : z ∈ ids.erase x := hl z (by simp [htail])
      have hplace := hrest front z back htail
      constructor
      · exact (met_cons_iff hnodup hz).mpr hplace.1
      · intro y hy hfront hmet
        have hyx : y ∈ ids.erase x :=
          hnodup.mem_erase_iff.mpr ⟨fun heq => hfront (heq ▸ List.mem_cons_self), hy⟩
        apply hplace.2 y hyx ?_ ((met_cons_iff hnodup hyx).mp hmet)
        exact fun hmem => hfront (List.mem_cons_of_mem x hmem)

theorem find?_eq_some_iff_least (h : u.ByName ids) {p : PackageId → Bool} :
    ids.find? p = some x ↔
      x ∈ ids ∧ p x = true ∧ ∀ y ∈ ids, p y = true → (u.compareNames x y).isLE = true := by
  rw [List.find?_eq_some_iff_append]
  constructor
  · rintro ⟨hp, front, back, rfl, hfront⟩
    refine ⟨by simp, hp, ?_⟩
    intro y hy hpy
    rcases List.mem_append.mp hy with hbefore | hfrom
    · have hno := hfront y hbefore
      rw [hpy] at hno
      cases hno
    · rcases List.mem_cons.mp hfrom with rfl | hbehind
      · exact Std.ReflCmp.isLE_rfl
      · have hlt := (List.pairwise_cons.mp (List.pairwise_append.mp h).2.1).1 y hbehind
        exact Ordering.isLE_of_eq_lt hlt
  · rintro ⟨hx, hp, hleast⟩
    obtain ⟨front, back, rfl⟩ := List.append_of_mem hx
    refine ⟨hp, front, back, rfl, ?_⟩
    intro y hy
    have hlt : u.compareNames y x = .lt :=
      (List.pairwise_append.mp h).2.2 y hy x List.mem_cons_self
    by_contra hpy
    have hle := hleast y (List.mem_append_left _ hy) (by simpa using hpy)
    exact Std.OrientedCmp.not_lt_of_isLE hle hlt

theorem exists_isReady (hacyclic : ∀ c, ¬ TransGen (Needs order ids) c c) (hx : x ∈ ids) :
    ∃ y, ids.find? (isReady order ids) = some y := by
  cases hfind : ids.find? (isReady order ids) with
  | some y => exact ⟨y, rfl⟩
  | none =>
    obtain ⟨c, hcycle, -⟩ := (Split.ofStuck hfind).behindCycle hx
    exact absurd hcycle (hacyclic c)

theorem takesLeast_nil_iff : l.Perm [] ∧ TakesLeast u order [] l ↔ l = [] := by
  rw [List.perm_nil, and_iff_left_iff_imp]
  rintro rfl front x back hsplit
  simp at hsplit

theorem takesLeast_iff_find? (h : u.ByName ids) (hx : ids.find? (isReady order ids) = some x) :
    l.Perm ids ∧ TakesLeast u order ids l ↔
      ∃ l', l = x :: l' ∧ l'.Perm (ids.erase x) ∧ TakesLeast u order (ids.erase x) l' := by
  have hleast := (find?_eq_some_iff_least h).mp hx
  constructor
  · rintro ⟨hperm, htakes⟩
    cases l with
    | nil =>
      rw [List.nil_perm.mp hperm] at hx
      cases hx
    | cons z l =>
      obtain ⟨hz, hperm⟩ := List.cons_perm_iff_perm_erase.mp hperm
      obtain ⟨hfirst, htakes⟩ := (takesLeast_cons_iff h.nodup hz
        fun _ hin => hperm.subset hin).mp htakes
      have hfind := (find?_eq_some_iff_least h).mpr ⟨hz, hfirst⟩
      obtain rfl : x = z := Option.some.inj (hx.symm.trans hfind)
      exact ⟨l, rfl, hperm, htakes⟩
  · rintro ⟨l', rfl, hperm, htakes⟩
    constructor
    · exact List.cons_perm_iff_perm_erase.mpr ⟨hleast.1, hperm⟩
    · apply (takesLeast_cons_iff h.nodup hleast.1 fun _ hin => hperm.subset hin).mpr
      exact ⟨hleast.2, htakes⟩

theorem acyclic_erase (h : ∀ c, ¬ TransGen (Needs order ids) c c) (x : PackageId) :
    ∀ c, ¬ TransGen (Needs order (ids.erase x)) c c := by
  have hneeds : Needs order (ids.erase x) ≤ Needs order ids := by
    intro a b hab
    exact ⟨hab.1, hab.2.1, List.mem_of_mem_erase hab.2.2.1, List.mem_of_mem_erase hab.2.2.2⟩
  intro c hcycle
  exact h c (TransGen.mono hneeds c c hcycle)

theorem takesLeast_iff_readyFirst {fuel : Nat} (hfuel : ids.length ≤ fuel) (h : u.ByName ids)
    (hacyclic : ∀ c, ¬ TransGen (Needs order ids) c c) :
    l.Perm ids ∧ TakesLeast u order ids l ↔ l = readyFirst order fuel ids := by
  induction fuel generalizing ids l with
  | zero =>
    have hnil : ids = [] := List.length_eq_zero_iff.mp (Nat.le_zero.mp hfuel)
    subst hnil
    exact takesLeast_nil_iff
  | succ fuel ih =>
    by_cases hnil : ids = []
    · subst hnil
      exact takesLeast_nil_iff
    obtain ⟨x, hx⟩ := List.exists_mem_of_ne_nil ids hnil
    obtain ⟨y, hy⟩ := exists_isReady hacyclic hx
    have hlength : (ids.erase y).length ≤ fuel := by
      rw [List.length_erase_of_mem (List.mem_of_find?_eq_some hy)]
      omega
    have hrest : ∀ l', l'.Perm (ids.erase y) ∧ TakesLeast u order (ids.erase y) l' ↔
        l' = readyFirst order fuel (ids.erase y) :=
      fun _ => ih hlength (h.sublist List.erase_sublist) (acyclic_erase hacyclic y)
    simp only [takesLeast_iff_find? h hy, hrest, readyFirst, hy, exists_eq_right]

/-! ## Plans -/

theorem takesLeast_congr {ids' : List PackageId} (h : ∀ x, x ∈ ids ↔ x ∈ ids') :
    TakesLeast u order ids l ↔ TakesLeast u order ids' l := by
  simp only [TakesLeast, Met, needs_congr h, h]

theorem isReady_congr {order' : List (PackageId × PackageId)}
    (h : ∀ p, p ∈ order' ↔ p ∈ order) : isReady order' = isReady order := by
  funext ids x
  rw [Bool.eq_iff_iff, isReady_iff, isReady_iff]
  simp only [h]

theorem arrange_congr {order' : List (PackageId × PackageId)}
    (h : ∀ p, p ∈ order' ↔ p ∈ order) (hids : ids.Nodup) :
    arrange u order' ids = arrange u order ids := by
  have hready : ∀ fuel waiting, readyFirst order' fuel waiting = readyFirst order fuel waiting := by
    intro fuel
    induction fuel with
    | zero => exact fun _ => rfl
    | succ fuel ih =>
      intro waiting
      simp only [readyFirst, isReady_congr h, ih]
  rw [arrange_eq_readyFirst hids, arrange_eq_readyFirst hids, hready]

/-- The order of incoming packages is the one that takes the least at each place. -/
theorem takesLeast_iff_arrange (hids : ids.Nodup)
    (hacyclic : ∀ c, ¬ TransGen (Needs order ids) c c) :
    l.Perm ids ∧ TakesLeast u order ids l ↔ l = arrange u order ids := by
  have hperm : (sortCmp u.compareNames ids).Perm ids := sortBy_perm ..
  have hmem : ∀ x, x ∈ sortCmp u.compareNames ids ↔ x ∈ ids := fun _ => mem_sortCmp
  rw [arrange_eq_readyFirst hids, ← takesLeast_iff_readyFirst hperm.length_eq.le
    (byName_sortCmp hids) (needs_congr hmem ▸ hacyclic), takesLeast_congr hmem]
  apply and_congr_left
  intro _
  exact ⟨fun h => h.trans hperm.symm, fun h => h.trans hperm⟩

variable (u)

/-- How often decisions name a package to install or erase or a pair of their order, and in which
order, does not matter. -/
theorem materialize_congr {d d' : Decisions} (hinstall : ∀ id, id ∈ d'.install ↔ id ∈ d.install)
    (herase : ∀ id, id ∈ d'.erase ↔ id ∈ d.erase) (horder : ∀ p, p ∈ d'.order ↔ p ∈ d.order)
    (hobsoletes : d'.obsoletes = d.obsoletes) (hreasons : d'.reasons = d.reasons) :
    materialize u d' = materialize u d := by
  have hincoming : incoming u d' = incoming u d := by
    ext id
    rw [mem_incoming, mem_incoming, hinstall]
  have houtgoing : outgoing u d' = outgoing u d := by
    ext id
    rw [mem_outgoing, mem_outgoing, herase]
  have hcontains : ∀ id, d'.erase.contains id = d.erase.contains id := by
    intro id
    rw [Bool.eq_iff_iff, List.contains_iff_mem, List.contains_iff_mem, herase]
  have hinboundOps : inboundOps u d' = inboundOps u d := by
    rw [inboundOps, hincoming, houtgoing, hreasons]
    rfl
  have hobsoletions : obsoletions u d' = obsoletions u d := by
    rw [obsoletions, hincoming, houtgoing, hreasons, hobsoletes]
    rfl
  have hreasonOps : reasonOps u d' = reasonOps u d := by
    simp only [reasonOps, hreasons, hcontains]
  have hoperations : (materialize u d').operations = (materialize u d).operations := by
    rw [materialize_operations, materialize_operations, eraseOps, hobsoletions, hinboundOps,
      hreasonOps, hincoming, arrange_congr horder (IdSet.toList_nodup _)]
    rfl
  show Plan.mk (materialize u d').operations [] = Plan.mk (materialize u d).operations []
  rw [hoperations]

/-- A plan depends on what decisions name, not on how often or in which order. Erases come first
and changes of reason last; in between each incoming package stands directly behind what it
obsoletes; and the packages of each such row stand by name. Where no incoming package needs itself
in a circle, the incoming packages stand in the one order that takes at each place the least by
name of all that need nothing more. -/
theorem materialize_canonical (d : Decisions) :
    (∀ d' : Decisions, (∀ id, id ∈ d'.install ↔ id ∈ d.install) →
      (∀ id, id ∈ d'.erase ↔ id ∈ d.erase) → (∀ p, p ∈ d'.order ↔ p ∈ d.order) →
      d'.obsoletes = d.obsoletes → d'.reasons = d.reasons →
      materialize u d' = materialize u d) ∧
    (∃ erases blocks changes,
      (materialize u d).operations = erases ++ blocks.flatMap Arrival.operations ++ changes ∧
      Layout u erases blocks changes) ∧
    ((∀ id, ¬ TransGen (Needs d.order (materialize u d).inbound) id id) →
      ∀ l, l.Perm (materialize u d).inbound ∧
        TakesLeast u d.order (materialize u d).inbound l ↔ l = (materialize u d).inbound) := by
  refine ⟨?_, materialize_layout u d, ?_⟩
  · intro d' hinstall herase horder hobsoletes hreasons
    exact materialize_congr u hinstall herase horder hobsoletes hreasons
  · intro hacyclic l
    have hnodup := IdSet.toList_nodup (incoming u d)
    have hperm := arrange_perm u d.order hnodup
    have hmem : ∀ x, x ∈ arrange u d.order (incoming u d).toList ↔ x ∈ (incoming u d).toList :=
      fun _ => hperm.mem_iff
    rw [materialize_inbound] at hacyclic ⊢
    rw [← takesLeast_iff_arrange hnodup (needs_congr hmem ▸ hacyclic), takesLeast_congr hmem]
    apply and_congr_left
    intro _
    exact ⟨fun h => h.trans hperm, fun h => h.trans hperm.symm⟩

/-- The application comes first by name, but it needs one of the libraries. -/
def appBehindLibrary : Decisions where
  install := [0, 1, 2]
  order := [(2, 0)]

/-- The same decisions in other words. -/
def appBehindLibraryAgain : Decisions where
  install := [2, 0, 1, 0]
  order := [(2, 0), (2, 0)]

theorem appBehindLibrary_canonical :
    materialize appAndLibraries appBehindLibraryAgain =
      materialize appAndLibraries appBehindLibrary ∧
    [1, 2, 0].Perm (materialize appAndLibraries appBehindLibrary).inbound ∧
    TakesLeast appAndLibraries appBehindLibrary.order
      (materialize appAndLibraries appBehindLibrary).inbound [1, 2, 0] := by
  have hcanonical := materialize_canonical appAndLibraries appBehindLibrary
  have hacyclic : ∀ id, ¬ TransGen (Needs appBehindLibrary.order
      (materialize appAndLibraries appBehindLibrary).inbound) id id := by
    intro id hcycle
    have hpair : ∀ a b, Needs appBehindLibrary.order
        (materialize appAndLibraries appBehindLibrary).inbound a b → a = 2 ∧ b = 0 := by
      intro a b hneeds
      simpa [appBehindLibrary] using hneeds.1
    obtain ⟨a, hfirst, -⟩ := TransGen.head'_iff.mp hcycle
    obtain ⟨b, -, hlast⟩ := TransGen.tail'_iff.mp hcycle
    have hzero : 2 = 0 := (hpair _ _ hfirst).1.symm.trans (hpair _ _ hlast).2
    cases hzero
  constructor
  · apply hcanonical.1 appBehindLibraryAgain ?_ (fun _ => Iff.rfl) ?_ rfl rfl
    · intro id
      simp only [appBehindLibraryAgain, appBehindLibrary, List.mem_cons, List.not_mem_nil]
      tauto
    · intro p
      simp [appBehindLibraryAgain, appBehindLibrary]
  · have hinbound : [1, 2, 0] = (materialize appAndLibraries appBehindLibrary).inbound := by
      decide +kernel
    exact (hcanonical.2.2 hacyclic [1, 2, 0]).mpr hinbound

end Depsolve.Plan
