import Depsolve.Proofs.Selector.Fallback
/-!
# Putting a selector together

A selector is begun empty or by a pattern and gets its parts one by one. What is not overwritten
stays: a name that is given after a dependency expression takes the place of the expression's
name, and not of its fallback.
-/
namespace Depsolve.Selector

inductive Step where
  | parse (pattern : String)
  | name (n : String)
  | nameGlob (pattern : String)
  | provides (d : Dependency)
  | evr (c : Comparison) (bound : Evr)
  | arch (a : String)
  | repo (r : String)

def perform (s : Selector) : Step → Except SelectorError Selector
  | .parse pattern => Selector.parse pattern
  | .name n => s.withName n
  | .nameGlob pattern => s.withNameGlob pattern
  | .provides d => s.withProvides d
  | .evr c bound => .ok (s.withEvr c bound)
  | .arch a => .ok (s.withArch a)
  | .repo r => .ok (s.withRepo r)

/-- The selector that steps put together, if none of them is refused. -/
def build (steps : List Step) : Except SelectorError Selector := steps.foldlM perform {}

/-- The name that a step asks for by itself. -/
def Step.naming? : Step → Option NameMatch
  | .name n => some (.exact n)
  | .nameGlob pattern => some (NameMatch.ofPattern pattern)
  | _ => none

def Step.setsName : Step → Bool
  | .parse _ | .name _ | .nameGlob _ => true
  | _ => false

/-- The fallback after a step: only a pattern decides about it. -/
def Step.leave (left : Option Dependency) : Step → Option Dependency
  | .parse pattern => (Selector.parse pattern).toOption.bind Selector.fallback
  | _ => left

/-- The fallback that the last pattern among the steps has left behind. -/
def leftBehind (steps : List Step) : Option Dependency := steps.foldl Step.leave none

section Steps

variable {s t : Selector} {step : Step} {steps : List Step} {m : NameMatch} {what : String}

theorem pattern_of_checkNameSlot {done : Unit} (h : s.checkNameSlot what = .ok done) :
    s.pattern = none := by
  rw [checkNameSlot] at h
  split at h
  · cases h
  · split at h
    · cases h
    · next hpattern => simpa using hpattern

theorem perform_naming (hnaming : step.naming? = some m) (h : s.perform step = .ok t) :
    t.pattern = none ∧ t.name = some m := by
  cases step with
  | name n =>
    obtain ⟨_, hslot, h⟩ := Universe.bind_eq_ok h
    cases h
    exact ⟨pattern_of_checkNameSlot hslot, hnaming⟩
  | nameGlob pattern =>
    obtain ⟨_, hslot, h⟩ := Universe.bind_eq_ok h
    cases h
    exact ⟨pattern_of_checkNameSlot hslot, hnaming⟩
  | _ => cases hnaming

theorem withProvides_eq_ok {d : Dependency} (h : s.withProvides d = .ok t) :
    t = { s with provides := some d } := by
  rw [withProvides] at h
  split at h
  · cases h
  · cases h
    rfl

theorem perform_keeps_name (hkeep : step.setsName = false) (h : s.perform step = .ok t) :
    t.pattern = s.pattern ∧ t.name = s.name := by
  cases step with
  | provides d =>
    rw [withProvides_eq_ok h]
    exact ⟨rfl, rfl⟩
  | evr | arch | repo =>
    cases h
    exact ⟨rfl, rfl⟩
  | _ => cases hkeep

theorem perform_fallback (h : s.perform step = .ok t) : t.fallback = step.leave s.fallback := by
  cases step with
  | parse pattern =>
    have hparse : Selector.parse pattern = .ok t := h
    simp [Step.leave, hparse, Except.toOption]
  | name | nameGlob =>
    obtain ⟨-, -, h⟩ := Universe.bind_eq_ok h
    cases h
    rfl
  | provides d =>
    rw [withProvides_eq_ok h]
    rfl
  | evr | arch | repo =>
    cases h
    rfl

theorem run_keeps_name (hkeep : ∀ step ∈ steps, step.setsName = false)
    (h : steps.foldlM perform s = .ok t) : t.pattern = s.pattern ∧ t.name = s.name := by
  induction steps generalizing s with
  | nil =>
    cases h
    exact ⟨rfl, rfl⟩
  | cons step steps ih =>
    obtain ⟨r, hr, hrest⟩ := Universe.bind_eq_ok h
    have hfirst := perform_keeps_name (hkeep step List.mem_cons_self) hr
    have hlater := ih (fun step hin => hkeep step (List.mem_cons_of_mem _ hin)) hrest
    exact ⟨hlater.1.trans hfirst.1, hlater.2.trans hfirst.2⟩

theorem run_fallback (h : steps.foldlM perform s = .ok t) :
    t.fallback = steps.foldl Step.leave s.fallback := by
  induction steps generalizing s with
  | nil =>
    cases h
    rfl
  | cons step steps ih =>
    obtain ⟨r, hr, hrest⟩ := Universe.bind_eq_ok h
    rw [ih hrest, perform_fallback hr, List.foldl_cons]

theorem Step.leave_eq_self (h : step.naming?.isSome = true ∨ step.setsName = false)
    (left : Option Dependency) : step.leave left = left := by
  cases step with
  | parse pattern => simp [Step.naming?, Step.setsName] at h
  | _ => rfl

theorem foldl_leave_eq_self (h : ∀ step ∈ steps, step.setsName = false)
    (left : Option Dependency) : steps.foldl Step.leave left = left := by
  induction steps generalizing left with
  | nil => rfl
  | cons step steps ih =>
    rw [List.foldl_cons, Step.leave_eq_self (.inr (h step List.mem_cons_self))]
    exact ih (fun step hin => h step (List.mem_cons_of_mem _ hin)) left

theorem parts_of_build {before after : List Step} (hnaming : step.naming? = some m)
    (hafter : ∀ later ∈ after, later.setsName = false)
    (hbuild : build (before ++ step :: after) = .ok s) :
    s.pattern = none ∧ s.name = some m ∧ s.fallback = leftBehind before := by
  rw [build, List.foldlM_append] at hbuild
  obtain ⟨first, hfirst, hbuild⟩ := Universe.bind_eq_ok hbuild
  rw [List.foldlM_cons] at hbuild
  obtain ⟨named, hnamed, hrest⟩ := Universe.bind_eq_ok hbuild
  have hname := perform_naming hnaming hnamed
  have hkept := run_keeps_name hafter hrest
  have hself := Step.leave_eq_self (.inl (Option.isSome_of_eq_some hnaming)) first.fallback
  refine ⟨hkept.1.trans hname.1, hkept.2.trans hname.2, ?_⟩
  rw [run_fallback hrest, foldl_leave_eq_self hafter, perform_fallback hnamed, hself,
    run_fallback hfirst]
  rfl

end Steps

/-- A selector whose last name was given by itself selects what it admits and has that name.
Where there is no such package it selects by a fallback that an earlier pattern has left
behind, and then what it selects does not have the name. -/
theorem last_name_decides {before after : List Step} {step : Step} {m : NameMatch} {s : Selector}
    (hnaming : step.naming? = some m) (hafter : ∀ later ∈ after, later.setsName = false)
    (hbuild : build (before ++ step :: after) = .ok s) (u : Universe) :
    (∀ id, id ∈ s.resolve u ↔ id ∈ u.considered ∧ s.Admits (u.get id) ∧
      (m.accepts (u.get id).name = true ∨
        ¬s.Finds u m ∧ ∃ d, leftBehind before = some d ∧ (u.get id).providesDep d = true)) ∧
      ((∀ id ∈ s.resolve u, m.accepts (u.get id).name = true) ↔
        s.Finds u m ∨ ∀ d, leftBehind before = some d →
          ∀ id ∈ u.considered, s.Admits (u.get id) → (u.get id).providesDep d = false) := by
  obtain ⟨hpattern, hname, hfallback⟩ := parts_of_build hnaming hafter hbuild
  have hresolve : ∀ id, id ∈ s.resolve u ↔ id ∈ u.considered ∧ s.Admits (u.get id) ∧
      (m.accepts (u.get id).name = true ∨
        ¬s.Finds u m ∧ ∃ d, leftBehind before = some d ∧ (u.get id).providesDep d = true) := by
    intro id
    rw [mem_resolve_of_name hpattern hname, hfallback]
  refine ⟨hresolve, ?_⟩
  constructor
  · intro hall
    by_cases hfinds : s.Finds u m
    · exact .inl hfinds
    · refine .inr fun d hd id hid hadmits => ?_
      by_contra hprovides
      have hselected := (hresolve id).mpr
        ⟨hid, hadmits, .inr ⟨hfinds, d, hd, by simpa using hprovides⟩⟩
      exact hfinds ⟨id, hid, hadmits, hall id hselected⟩
  · intro hcond id hselected
    obtain ⟨hid, hadmits, hnamed | ⟨hnone, d, hd, hprovides⟩⟩ := (hresolve id).mp hselected
    · exact hnamed
    · rcases hcond with hfinds | hunprovided
      · exact absurd hfinds hnone
      · exact absurd hprovides (by simp [hunprovided d hd id hid hadmits])

/-- The name that comes last finds a server, and then nothing is looked for by the expression
in front of it. -/
theorem postGlob_decides :
    Step.naming? (.nameGlob "post*") = some (NameMatch.ofPattern "post*") ∧
      (∀ later ∈ [Step.arch "noarch"], later.setsName = false) ∧
      ∃ s, build ([.parse "smtp >= 10"] ++ .nameGlob "post*" :: [.arch "noarch"]) = .ok s ∧
        (s.resolve mailServers).toList = [0] ∧
        ∀ id ∈ s.resolve mailServers,
          (NameMatch.ofPattern "post*").accepts (mailServers.get id).name = true := by
  have hafter : ∀ later ∈ [Step.arch "noarch"], later.setsName = false := by simp [Step.setsName]
  have hbuild : build ([.parse "smtp >= 10"] ++ .nameGlob "post*" :: [.arch "noarch"]) =
      .ok { ofExpression smtpSince10 with
        name := some (NameMatch.ofPattern "post*"), nameText := some "post*",
        arch := some "noarch" } :=
    eq_ok_of_toOption (by decide +kernel)
  obtain ⟨hresolve, hall⟩ := last_name_decides rfl hafter hbuild mailServers
  refine ⟨rfl, hafter, _, hbuild, by decide +kernel, hall.mpr (.inl ?_)⟩
  have hselected := (hresolve 0).mp (by decide +kernel)
  exact ⟨0, hselected.1, hselected.2.1, by decide +kernel⟩

/-- Nothing has the name that comes last, and the expression in front of it selects a server of
another name. -/
theorem mailName_overridden :
    ∃ s, build [.parse "smtp >= 10", .name "mail"] = .ok s ∧
      ¬∀ id ∈ s.resolve mailServers, (mailServers.get id).name = "mail" := by
  refine ⟨{ ofExpression smtpSince10 with
    name := some (.exact "mail"), nameText := some "mail" }, ?_, ?_⟩
  · exact eq_ok_of_toOption (by decide +kernel)
  · intro hall
    exact absurd (hall 0 (by decide +kernel)) (by decide +kernel)

end Depsolve.Selector
