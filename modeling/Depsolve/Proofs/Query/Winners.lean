import Depsolve.Proofs.Query.Composition
import Depsolve.Proofs.Version.Order
import Mathlib.Data.Finset.Max
/-!
# The winners of each family

The highest builds of a family are collected in one pass that compares each package with the
first of the best so far, and the best repository of a family is found in a pass of its own.
Either way the winners are the packages that no rival of their family beats, and every family
keeps one.
-/
namespace Depsolve

theorem Evr.newer_eq_false {a b : Evr} : a.newer b = false ↔ (a.compare b).isLE = true := by
  rw [newer]
  cases a.compare b <;> decide

theorem Evr.isLE_self (a : Evr) : (a.compare a).isLE = true := by
  have hself : a.compare a = .eq := Std.ReflCmp.compare_self
  rw [hself]
  rfl

section Leaders

variable {p q x : Package} {family : String × String} {seen : List Package}

/-- A package of the family that no package of the family is newer than. -/
def Leads (seen : List Package) (family : String × String) (p : Package) : Prop :=
  p ∈ seen ∧ p.family = family ∧ ∀ y ∈ seen, y.family = family → (y.evr.compare p.evr).isLE = true

theorem leads_append_of_ne (h : q.family ≠ family) :
    Leads (seen ++ [q]) family x ↔ Leads seen family x := by
  simp only [Leads, List.mem_append, List.mem_singleton]
  constructor
  · rintro ⟨hx | rfl, hfamily, hall⟩
    · exact ⟨hx, hfamily, fun y hy => hall y (.inl hy)⟩
    · exact absurd hfamily h
  · rintro ⟨hx, hfamily, hall⟩
    refine ⟨.inl hx, hfamily, ?_⟩
    rintro y (hy | rfl) hy'
    · exact hall y hy hy'
    · exact absurd hy' h

theorem leads_append_of_new (hnew : ∀ y ∈ seen, y.family ≠ p.family) :
    Leads (seen ++ [p]) p.family x ↔ x = p := by
  simp only [Leads, List.mem_append, List.mem_singleton]
  constructor
  · rintro ⟨hx | rfl, hfamily, -⟩
    · exact absurd hfamily (hnew x hx)
    · rfl
  · rintro rfl
    refine ⟨.inr rfl, rfl, ?_⟩
    rintro y (hy | rfl) hfamily
    · exact absurd hfamily (hnew y hy)
    · exact Evr.isLE_self y.evr

/-- All leaders of a family are equal to one of them, so that one decides for the newcomer. -/
theorem leads_append_of_leader (hq : Leads seen p.family q) :
    Leads (seen ++ [p]) p.family x ↔
      Leads seen p.family x ∧ (p.evr.compare q.evr).isLE = true ∨
        x = p ∧ (q.evr.compare p.evr).isLE = true := by
  obtain ⟨hmem, hfamily, hall⟩ := hq
  simp only [Leads, List.mem_append, List.mem_singleton]
  constructor
  · rintro ⟨hx | rfl, hx', hbeats⟩
    · have hpx := hbeats p (.inr rfl) rfl
      exact .inl ⟨⟨hx, hx', fun y hy => hbeats y (.inl hy)⟩, Std.TransCmp.isLE_trans hpx (hall x hx hx')⟩
    · exact .inr ⟨rfl, hbeats q (.inl hmem) hfamily⟩
  · rintro (⟨⟨hx, hx', hbeats⟩, hle⟩ | ⟨rfl, hle⟩)
    · refine ⟨.inl hx, hx', ?_⟩
      rintro y (hy | rfl) hy'
      · exact hbeats y hy hy'
      · exact Std.TransCmp.isLE_trans hle (hbeats q hmem hfamily)
    · refine ⟨.inr rfl, rfl, ?_⟩
      rintro y (hy | rfl) hy'
      · exact Std.TransCmp.isLE_trans (hall y hy hy') hle
      · exact Evr.isLE_self y.evr

/-- The leaders of a family after one more package of it. -/
def joinLeaders (p : Package) : List Package → List Package
  | [] => [p]
  | q :: best =>
    match p.evr.compare q.evr with
    | .gt => [p]
    | .eq => q :: best ++ [p]
    | .lt => q :: best

theorem joinLeaders_ne_nil (p : Package) (best : List Package) : joinLeaders p best ≠ [] := by
  cases best with
  | nil => simp [joinLeaders]
  | cons q best =>
    rw [joinLeaders]
    split <;> simp

theorem mem_joinLeaders {best : List Package} (hsome : best ≠ [])
    (h : ∀ x, x ∈ best ↔ Leads seen p.family x) :
    x ∈ joinLeaders p best ↔ Leads (seen ++ [p]) p.family x := by
  cases best with
  | nil => exact absurd rfl hsome
  | cons q best =>
    have hswap : q.evr.compare p.evr = (p.evr.compare q.evr).swap := Std.OrientedCmp.eq_swap
    rw [leads_append_of_leader ((h q).mp List.mem_cons_self), ← h, joinLeaders, hswap]
    cases p.evr.compare q.evr <;> simp [or_assoc]

namespace Leaders

variable {l : Leaders}

/-- The entry of a package's family takes the package in, any other stays. -/
def joinEntry (p : Package) (e : (String × String) × List Package) :
    (String × String) × List Package :=
  if e.1 = p.family then (e.1, joinLeaders p e.2) else e

@[simp] theorem joinEntry_fst (p : Package) (e : (String × String) × List Package) :
    (joinEntry p e).1 = e.1 := by
  rw [joinEntry]
  split <;> rfl

theorem map_joinEntry_of_notMem (h : p.family ∉ l.map Prod.fst) : l.map (joinEntry p) = l := by
  refine (List.map_congr_left fun e he => if_neg fun heq => ?_).trans (List.map_id' l)
  have hin : e.1 ∈ l.map Prod.fst := List.mem_map_of_mem he
  exact h (heq ▸ hin)

theorem add_cons_self (p : Package) (best : List Package) (rest : Leaders) :
    add p ((p.family, best) :: rest) = (p.family, joinLeaders p best) :: rest := by
  cases best with
  | nil => simp [add, joinLeaders]
  | cons q best =>
    simp only [add, if_true, joinLeaders]
    cases p.evr.compare q.evr <;> rfl

theorem add_eq (hkeys : (l.map Prod.fst).Nodup) (p : Package) :
    l.add p =
      if p.family ∈ l.map Prod.fst then l.map (joinEntry p) else l ++ [(p.family, [p])] := by
  induction l with
  | nil => rfl
  | cons e rest ih =>
    obtain ⟨family, best⟩ := e
    have hnodup := List.nodup_cons.mp hkeys
    by_cases hfamily : family = p.family
    · subst hfamily
      simp [add_cons_self, joinEntry, map_joinEntry_of_notMem hnodup.1]
    · simp only [add, if_neg hfamily, ih hnodup.2, List.map_cons, List.mem_cons,
        Ne.symm hfamily, false_or, joinEntry]
      split <;> rfl

/-- What has been collected from the packages met so far. -/
structure Collected (seen : List Package) (l : Leaders) : Prop where
  keys : (l.map Prod.fst).Nodup
  covers : ∀ p ∈ seen, p.family ∈ l.map Prod.fst
  nonempty : ∀ e ∈ l, e.2 ≠ []
  leads : ∀ e ∈ l, ∀ x, x ∈ e.2 ↔ Leads seen e.1 x

theorem collected_nil : Collected [] [] where
  keys := List.nodup_nil
  covers := List.forall_mem_nil _
  nonempty := List.forall_mem_nil _
  leads := List.forall_mem_nil _

theorem Collected.add (h : Collected seen l) (p : Package) :
    Collected (seen ++ [p]) (l.add p) := by
  have hcovers : ∀ x ∈ seen, x.family ∈ l.map Prod.fst := h.covers
  rw [add_eq h.keys]
  split
  · next hmet =>
    have hkeys : (l.map (joinEntry p)).map Prod.fst = l.map Prod.fst := by
      rw [List.map_map]
      exact List.map_congr_left fun e _ => joinEntry_fst p e
    constructor
    case keys => rw [hkeys]; exact h.keys
    case covers =>
      rw [hkeys]
      intro x hx
      rcases List.mem_append.mp hx with hold | hx
      · exact hcovers x hold
      · exact List.mem_singleton.mp hx ▸ hmet
    case nonempty =>
      intro e he
      obtain ⟨e, hold, rfl⟩ := List.mem_map.mp he
      rw [joinEntry]
      split
      · exact joinLeaders_ne_nil p e.2
      · exact h.nonempty e hold
    case leads =>
      intro e he x
      obtain ⟨e, hold, rfl⟩ := List.mem_map.mp he
      rw [joinEntry]
      split
      · next heq =>
        have hlead := h.leads e hold
        rw [heq] at hlead ⊢
        exact mem_joinLeaders (h.nonempty e hold) hlead
      · next hne => rw [leads_append_of_ne (Ne.symm hne), h.leads e hold]
  · next hnew =>
    have hfresh : ∀ y ∈ seen, y.family ≠ p.family := fun y hy heq => hnew (heq ▸ hcovers y hy)
    constructor
    case keys =>
      rw [List.map_append]
      exact h.keys.append (List.nodup_singleton _) (by simpa using hnew)
    case covers =>
      intro x hx
      rcases List.mem_append.mp hx with hold | hx
      · simpa using .inl (by simpa using hcovers x hold)
      · simp [List.mem_singleton.mp hx]
    case nonempty =>
      intro e he
      rcases List.mem_append.mp he with hold | he
      · exact h.nonempty e hold
      · simp [List.mem_singleton.mp he]
    case leads =>
      intro e he x
      rcases List.mem_append.mp he with hold | he
      · have hne : p.family ≠ e.1 := fun heq => hnew (heq ▸ List.mem_map_of_mem hold)
        rw [leads_append_of_ne hne, h.leads e hold]
      · rw [List.mem_singleton.mp he, leads_append_of_new hfresh, List.mem_singleton]

theorem Collected.foldl (h : Collected seen l) (packages : List Package) :
    Collected (seen ++ packages) (packages.foldl (fun done p => done.add p) l) := by
  induction packages generalizing seen l with
  | nil => simpa using h
  | cons p packages ih => simpa using ih (h.add p)

end Leaders

end Leaders

namespace BestPriorities

/-- Nothing in a family has a lower number than `least`. -/
def Bounds (least : Int) (best : BestPriorities) (family : String × String) : Prop :=
  (best.lookup family).all (least ≤ ·) = true

theorem bounds_add {least : Int} {family other : String × String} {priority : Int}
    {best : BestPriorities} :
    Bounds least (best.add family priority) other ↔
      Bounds least best other ∧ (family = other → least ≤ priority) := by
  induction best with
  | nil =>
    by_cases h : family = other
    · subst h
      simp [Bounds, add]
    · simp [Bounds, add, List.lookup_cons, beq_false_of_ne (Ne.symm h), h]
  | cons e rest ih =>
    obtain ⟨f, priority⟩ := e
    rw [Bounds, Bounds] at *
    by_cases hother : other = f
    · subst hother
      by_cases h : other = family
      · simp [add, h]
      · simp [add, h, Ne.symm h]
    · have hskip := beq_false_of_ne hother
      by_cases h : f = family
      · simp [add, h, List.lookup_cons, h ▸ hskip, Ne.symm (h ▸ hother)]
      · simp only [add, if_neg h, List.lookup_cons, hskip, ih]

theorem bounds_foldl (rank : Package → Int) (least : Int) (family : String × String)
    (packages : List Package) (best : BestPriorities) :
    Bounds least (packages.foldl (fun done p => done.add p.family (rank p)) best) family ↔
      Bounds least best family ∧ ∀ p ∈ packages, p.family = family → least ≤ rank p := by
  induction packages generalizing best with
  | nil => simp
  | cons p packages ih => rw [List.foldl_cons, ih, bounds_add, List.forall_mem_cons, and_assoc]

end BestPriorities

namespace Universe

variable {u : Universe} {base part : PackageSet} {id : PackageId}

variable (u) in
/-- No package of the set with the same name and architecture is newer. -/
def Highest (base : PackageSet) (id : PackageId) : Prop :=
  ∀ rival ∈ base, (u.get rival).name = (u.get id).name → (u.get rival).arch = (u.get id).arch →
    (u.get rival).evr.newer (u.get id).evr = false

variable (u) in
/-- No available package of the set with the same name and architecture is in a repository of
a lower priority number. -/
def Foremost (base : PackageSet) (id : PackageId) : Prop :=
  ∀ rival ∈ base, (u.get rival).installed = false → (u.get rival).name = (u.get id).name →
    (u.get rival).arch = (u.get id).arch →
      u.repoPriority (u.get id).repo ≤ u.repoPriority (u.get rival).repo

variable (u) in
/-- A part of a set with a package of every name and architecture that occurs in the set. -/
structure KeepsFamilies (part base : PackageSet) : Prop extends part.PartOf base where
  family : ∀ id ∈ base, ∃ kept ∈ part,
    (u.get kept).name = (u.get id).name ∧ (u.get kept).arch = (u.get id).arch

theorem Highest.mono (h : u.Highest base id) (hpart : ∀ id ∈ part, id ∈ base) :
    u.Highest part id := fun rival hrival => h rival (hpart rival hrival)

theorem Foremost.mono (h : u.Foremost base id) (hpart : ∀ id ∈ part, id ∈ base) :
    u.Foremost part id := fun rival hrival => h rival (hpart rival hrival)

theorem leads_iff_highest (hid : id ∈ base) :
    Leads (base.toList.map u.get) (u.get id).family (u.get id) ↔ u.Highest base id := by
  have hin : u.get id ∈ base.toList.map u.get :=
    List.mem_map_of_mem (PackageSet.mem_toList.mpr hid)
  simp only [Leads, hin, true_and, List.forall_mem_map, PackageSet.mem_toList, Package.family,
    Prod.mk.injEq, and_imp, Highest, Evr.newer_eq_false]

variable (u) in
/-- The families of a set, with the highest builds of each. -/
def leaders (base : PackageSet) : Leaders :=
  base.toList.foldl (fun done id => done.add (u.get id)) []

variable (u base) in
theorem collected_leaders :
    Leaders.Collected (base.toList.map u.get) (u.leaders base) := by
  have h := Leaders.collected_nil.foldl (base.toList.map u.get)
  rwa [List.foldl_map, List.nil_append] at h

variable (u) in
theorem exists_entry (hid : id ∈ base) :
    ∃ e ∈ u.leaders base, e.1 = (u.get id).family ∧ e.2 ≠ [] := by
  have hleaders := collected_leaders u base
  have hin : u.get id ∈ base.toList.map u.get :=
    List.mem_map_of_mem (PackageSet.mem_toList.mpr hid)
  obtain ⟨e, he, hfamily⟩ := List.mem_map.mp (hleaders.covers _ hin)
  exact ⟨e, he, hfamily, hleaders.nonempty e he⟩

theorem mem_entry {e : (String × String) × List Package} (he : e ∈ u.leaders base)
    {p : Package} :
    p ∈ e.2 ↔ ∃ i ∈ base, u.get i = p ∧ p.family = e.1 ∧ u.Highest base i := by
  rw [(collected_leaders u base).leads e he]
  constructor
  · intro hlead
    have hfamily : p.family = e.1 := hlead.2.1
    obtain ⟨i, hi, rfl⟩ := List.mem_map.mp hlead.1
    have hbase := PackageSet.mem_toList.mp hi
    exact ⟨i, hbase, rfl, hfamily, (leads_iff_highest hbase).mp (hfamily ▸ hlead)⟩
  · rintro ⟨i, hi, rfl, hfamily, hhighest⟩
    exact hfamily ▸ (leads_iff_highest hi).mpr hhighest

/-- Of the available packages of one family some repository has the lowest number. -/
theorem exists_foremost (hid : id ∈ base) (havailable : (u.get id).installed = false) :
    ∃ first ∈ base, (u.get first).name = (u.get id).name ∧ (u.get first).arch = (u.get id).arch ∧
      u.Foremost base first := by
  let rivals := base.toList.toFinset.filter fun i => (u.get i).installed = false ∧
    (u.get i).name = (u.get id).name ∧ (u.get i).arch = (u.get id).arch
  have hrivals : ∀ i, i ∈ rivals ↔ i ∈ base ∧ (u.get i).installed = false ∧
      (u.get i).name = (u.get id).name ∧ (u.get i).arch = (u.get id).arch := by
    intro i
    simp [rivals]
  obtain ⟨first, hfirst, hleast⟩ := rivals.exists_min_image
    (fun i => u.repoPriority (u.get i).repo) ⟨id, (hrivals id).mpr ⟨hid, havailable, rfl, rfl⟩⟩
  obtain ⟨hin, -, hname, harch⟩ := (hrivals first).mp hfirst
  refine ⟨first, hin, hname, harch, fun rival hrival havail hname' harch' => ?_⟩
  exact hleast rival ((hrivals rival).mpr
    ⟨hrival, havail, hname'.trans hname, harch'.trans harch⟩)

end Universe

namespace Query

variable {u : Universe} {base : PackageSet} {q : Query} {id : PackageId}

theorem keepLatest_eq (u : Universe) (base : PackageSet) : keepLatest u base =
    PackageSet.ofIds base.generation base.capacity
      ((u.leaders base).flatMap fun e => e.2.map Package.id) := rfl

theorem mem_keepLatest (h : base.BelongsTo u) :
    id ∈ keepLatest u base ↔ id ∈ base ∧ u.Highest base id := by
  simp only [keepLatest_eq, PackageSet.mem_ofIds, List.mem_flatMap, List.mem_map]
  constructor
  · rintro ⟨⟨e, he, p, hp, rfl⟩, -⟩
    obtain ⟨i, hi, rfl, -, hhighest⟩ := (Universe.mem_entry he).mp hp
    rw [u.get_id (h.lt_size hi)]
    exact ⟨hi, hhighest⟩
  · rintro ⟨hid, hhighest⟩
    obtain ⟨e, he, hfamily, -⟩ := u.exists_entry hid
    have hin : u.get id ∈ e.2 :=
      (Universe.mem_entry he).mpr ⟨id, hid, rfl, hfamily.symm, hhighest⟩
    exact ⟨⟨e, he, u.get id, hin, u.get_id (h.lt_size hid)⟩, PackageSet.lt_capacity hid⟩

theorem keepLatest_keepsFamilies (h : base.BelongsTo u) :
    u.KeepsFamilies (keepLatest u base) base where
  generation := (PackageSet.foldl_insert_space _ _).1
  capacity := (PackageSet.foldl_insert_space _ _).2
  subset := fun _ hid => ((mem_keepLatest h).mp hid).1
  family := by
    intro id hid
    obtain ⟨e, he, hfamily, hsome⟩ := u.exists_entry hid
    obtain ⟨p, hp⟩ := List.exists_mem_of_ne_nil _ hsome
    obtain ⟨i, hi, rfl, hentry, hhighest⟩ := (Universe.mem_entry he).mp hp
    have hsame : (u.get i).family = (u.get id).family := hentry.trans hfamily
    exact ⟨i, (mem_keepLatest h).mpr ⟨hi, hhighest⟩, congrArg Prod.fst hsame,
      congrArg Prod.snd hsame⟩

theorem mem_keepPriority : id ∈ keepPriority u base ↔
    id ∈ base ∧ ((u.get id).installed = true ∨ u.Foremost base id) := by
  have hbounds := BestPriorities.bounds_foldl (fun p => u.repoPriority p.repo)
    (u.repoPriority (u.get id).repo) (u.get id).family ((base.toList.map u.get).filter (!·.installed)) []
  rw [BestPriorities.Bounds] at hbounds
  simp only [keepPriority, PackageSet.mem_filter, Bool.or_eq_true, hbounds]
  simp [BestPriorities.Bounds, Universe.Foremost, Package.family]

theorem keepPriority_keepsFamilies (u : Universe) (base : PackageSet) :
    u.KeepsFamilies (keepPriority u base) base where
  toPartOf := PackageSet.filter_partOf ..
  family := by
    intro id hid
    cases hinstalled : (u.get id).installed with
    | true => exact ⟨id, mem_keepPriority.mpr ⟨hid, .inl hinstalled⟩, rfl, rfl⟩
    | false =>
      obtain ⟨first, hfirst, hname, harch, hforemost⟩ :=
        Universe.exists_foremost hid hinstalled
      exact ⟨first, mem_keepPriority.mpr ⟨hfirst, .inr hforemost⟩, hname, harch⟩

theorem apply_partOf (h : base.BelongsTo u) (f : Filter) : (apply u f base).PartOf base := by
  by_cases hlatest : f = .latest
  · exact hlatest ▸ (keepLatest_keepsFamilies h).toPartOf
  · by_cases hpriority : f = .priority
    · exact hpriority ▸ (keepPriority_keepsFamilies u base).toPartOf
    · rw [apply_of_looksAtOne ⟨hlatest, hpriority⟩]
      exact PackageSet.filter_partOf ..

theorem run_belongsTo (hpool : q.pool = u) (h : q.result.BelongsTo u) (steps : List Step) :
    (q.run steps).result.BelongsTo u := by
  subst hpool
  induction steps generalizing q with
  | nil => exact h
  | cons step steps ih =>
    rw [← take_pool q step]
    apply ih
    rw [take_pool]
    cases step with
    | one f => exact h.of_partOf (apply_partOf h f)
    | any fs => exact h.of_partOf (PackageSet.filter_partOf ..)

theorem keepLatest_idempotent (h : base.BelongsTo u) :
    keepLatest u (keepLatest u base) = keepLatest u base := by
  have hpart := (keepLatest_keepsFamilies h).toPartOf
  have htwice := keepLatest_keepsFamilies (h.of_partOf hpart)
  refine PackageSet.ext_mem htwice.generation htwice.capacity fun id => ?_
  rw [mem_keepLatest (h.of_partOf hpart), and_iff_left_iff_imp]
  intro hid
  exact ((mem_keepLatest h).mp hid).2.mono hpart.subset

theorem keepPriority_idempotent (u : Universe) (base : PackageSet) :
    keepPriority u (keepPriority u base) = keepPriority u base := by
  have hpart := (keepPriority_keepsFamilies u base).toPartOf
  have htwice := keepPriority_keepsFamilies u (keepPriority u base)
  refine PackageSet.ext_mem htwice.generation htwice.capacity fun id => ?_
  rw [mem_keepPriority, and_iff_left_iff_imp]
  intro hid
  exact (mem_keepPriority.mp hid).2.imp_right fun hforemost => hforemost.mono hpart.subset

/-- Of what any steps have left, the one filter keeps the packages that no rival surpasses, the
other the installed packages and those of which no available rival is in a better repository.
Both change nothing the second time, and leave a package of every name and architecture. -/
theorem filters_keep_winners {start : Start} (hstart : start.query u = .ok q)
    (steps : List Step) :
    let r := q.run steps
    (∀ id, id ∈ (r.filter .latest).result ↔ id ∈ r.result ∧ u.Highest r.result id) ∧
      (∀ id, id ∈ (r.filter .priority).result ↔
        id ∈ r.result ∧ ((u.get id).installed = true ∨ u.Foremost r.result id)) ∧
      ∀ f ∈ [Filter.latest, Filter.priority],
        ((r.filter f).filter f).result = (r.filter f).result ∧
          u.KeepsFamilies (r.filter f).result r.result := by
  intro r
  obtain ⟨hpool, hresult, hmembers⟩ := query_eq_ok hstart
  have hr : r.result.BelongsTo u := run_belongsTo hpool (hresult ▸ hmembers) steps
  have hfilter : ∀ f, (r.filter f).result = apply u f r.result := by
    intro f
    rw [filter, run_pool, hpool]
  have htwice : ∀ f, ((r.filter f).filter f).result = apply u f (apply u f r.result) := by
    intro f
    simp only [filter, r, run_pool, hpool]
  refine ⟨fun id => ?_, fun id => ?_, ?_⟩
  · rw [hfilter]
    exact mem_keepLatest hr
  · rw [hfilter]
    exact mem_keepPriority
  · intro f hf
    rw [htwice, hfilter]
    simp only [List.mem_cons, List.not_mem_nil, or_false] at hf
    rcases hf with rfl | rfl
    · exact ⟨keepLatest_idempotent hr, keepLatest_keepsFamilies hr⟩
    · exact ⟨keepPriority_idempotent .., keepPriority_keepsFamilies ..⟩

/-- An installed tool, an older and the highest build of it from one repository, and the highest
build in another spelling from a second one. -/
def toolRepositories : List Repository :=
  [⟨systemRepository, defaultPriority, true, [.noarch "tool" "1"]⟩,
    ⟨"base", defaultPriority, false, [.noarch "tool" "3.00"]⟩,
    ⟨"updates", 10, false, [.noarch "tool" "2", .noarch "tool" "3.0"]⟩]

def toolUniverse : Universe :=
  (Universe.build 1 toolRepositories).toOption.get (by decide +kernel)

/-- Both spellings of the highest build win, and the better repository also with its older
build beside the installed one. -/
theorem toolRepositories_winners :
    let r := (Query.considered toolUniverse).run [.one (.name (.exact "tool"))]
    Start.considered.query toolUniverse = .ok (Query.considered toolUniverse) ∧
      (r.filter .latest).result.toList = [2, 3] ∧ toolUniverse.Highest r.result 2 ∧
      (r.filter .priority).result.toList = [0, 1, 2] ∧ toolUniverse.Foremost r.result 1 ∧
      ((r.filter .latest).filter .latest).result = (r.filter .latest).result := by
  intro r
  have hstart : Start.considered.query toolUniverse = .ok (Query.considered toolUniverse) := rfl
  obtain ⟨hlatest, hpriority, htwice⟩ :=
    filters_keep_winners hstart [.one (.name (.exact "tool"))]
  have hhighest := (hlatest 2).mp (by decide +kernel)
  have hforemost := ((hpriority 1).mp (by decide +kernel)).2.resolve_left (by decide +kernel)
  exact ⟨hstart, by decide +kernel, hhighest.2, by decide +kernel, hforemost,
    (htwice _ List.mem_cons_self).1⟩

end Query

end Depsolve
