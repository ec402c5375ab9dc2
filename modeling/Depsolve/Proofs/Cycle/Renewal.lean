import Depsolve.Proofs.Cycle.Alike
import Depsolve.Proofs.Universe.Sample
/-!
# Starting afresh

A cycle that starts over keeps the options, and the configuration and the solver of the
last cycle until it has its own. Nothing else is left: the same calls come to the same as on
a new cycle, over universes that differ in their generation alone.
-/
namespace Depsolve

namespace Cycle

def Event.Configured (e : Event) : Prop :=
  (∃ host, e.call = .loadConfig host) ∧ e.turn.result = .ok none

theorem Step.options {c : Cycle} {k : Call} {t : Turn (Option Plan)} (h : Step c k t) :
    t.cycle.options = c.options := by
  cases h <;> rfl

theorem Step.midway {loaded : Prop} {c : Cycle} {k : Call} {t : Turn (Option Plan)}
    (h : Step c k t) (hm : c.Midway loaded) :
    t.cycle.Midway (loaded ∨ Event.Configured ⟨k, t⟩) := by
  intro hinit hfailed
  cases h with
  | refused | closed | added | frozen | cleared | solved | took | nothingTaken =>
    exact .inl (hm hinit hfailed)
  | failed | broken => exact absurd rfl hfailed
  | startedOver => exact absurd rfl hinit
  | configured host => exact .inr ⟨⟨host, rfl⟩, rfl⟩
  | fetched _ _ _ hs | loaded _ _ hs | opened _ _ hs | reopened _ _ hs
  | resolved _ _ _ _ hs | unsatisfiable _ _ _ _ hs =>
    exact .inl (hm.of_canEnter hs (by decide))
  | @handedOver _ part _ _ hs => exact .inl (hm.of_canEnter hs (by cases part <;> decide))

theorem settings_of_loadConfig {c : Cycle} {host : Host}
    (h : (c.perform (.loadConfig host)).result = .ok none) :
    ∃ config, configFor c.options host = .ok config ∧
      (c.perform (.loadConfig host)).cycle.config = config ∧
      (c.perform (.loadConfig host)).cycle.solver = config.settings.solver := by
  rw [perform, loadConfig, entering] at h ⊢
  by_cases hs : c.canEnter .loadConfig = true
  · rw [if_pos hs] at h ⊢
    dsimp only at h ⊢
    cases hconfig : configFor c.options host with
    | ok config => exact ⟨config, rfl, rfl, rfl⟩
    | error e =>
      rw [hconfig] at h
      cases h
  · rw [if_neg hs] at h
    cases h

/-- Cycles that load their configurations have the same ones from then on. -/
theorem Alike.perform_loaded {loaded : Prop} {c c' : Cycle} (h : c.Alike loaded c')
    (hm : c.Midway loaded) {k k' : Call} (hk : Call.Alike c.options k k') :
    (c.perform k).cycle.Alike (loaded ∨ Event.Configured ⟨k, c.perform k⟩)
      (c'.perform k').cycle := by
  have hturn := h.perform hm hk
  refine { hturn.cycle with settings := ?_ }
  rintro (hl | ⟨⟨host, rfl⟩, hok⟩)
  · exact hturn.cycle.settings hl
  · obtain ⟨host', rfl, hsame⟩ : ∃ host', k' = .loadConfig host' ∧
        configFor c.options host' = configFor c.options host := by
      cases hk with
      | same => exact ⟨host, rfl, rfl⟩
      | loadConfig hsame => exact ⟨_, rfl, hsame⟩
    obtain ⟨config, hconfig, hcycle, hsolver⟩ := settings_of_loadConfig hok
    obtain ⟨config', hconfig', hcycle', hsolver'⟩ :=
      settings_of_loadConfig (hturn.result.trans hok)
    rw [h.options, hsame, hconfig] at hconfig'
    cases hconfig'
    rw [hcycle, hcycle', hsolver, hsolver']
    exact ⟨rfl, rfl⟩

structure Event.Alike (o : CycleOptions) (e e' : Event) : Prop where
  call : Call.Alike o e.call e'.call
  turn : e.turn.Alike False e'.turn

end Cycle

namespace Session

open Depsolve.Cycle

theorem run_alike {o : CycleOptions} {loaded : Prop} {s s' : Session}
    (hs : s.cycle.Alike loaded s'.cycle) (hm : s.cycle.Midway loaded)
    (ho : s.cycle.options = o) {ks ks' : List Call} (hks : List.Forall₂ (Call.Alike o) ks ks') :
    ∃ events events', (s.run ks).events = s.events ++ events ∧
      (s'.run ks').events = s'.events ++ events' ∧
      List.Forall₂ (Event.Alike o) events events' ∧
      (s.run ks).cycle.Alike (loaded ∨ ∃ e ∈ events, e.Configured) (s'.run ks').cycle := by
  induction hks generalizing s s' loaded with
  | nil =>
    refine ⟨[], [], (List.append_nil _).symm, (List.append_nil _).symm, .nil, hs.mono ?_⟩
    simp
  | @cons k k' ks ks' hk _ ih =>
    subst ho
    have hstep := step_perform s.cycle (k := k)
    have hnext : (s.call k).cycle.Alike (loaded ∨ Event.Configured ⟨k, s.cycle.perform k⟩)
        (s'.call k').cycle := hs.perform_loaded hm hk
    obtain ⟨events, events', hevents, hevents', hall, hend⟩ :=
      ih hnext (hstep.midway hm) hstep.options
    refine ⟨⟨k, s.cycle.perform k⟩ :: events, ⟨k', s'.cycle.perform k'⟩ :: events', ?_, ?_,
      .cons ⟨hk, (hs.perform hm hk).mono nofun⟩ hall, hend.mono ?_⟩
    · exact hevents.trans (List.append_assoc ..)
    · exact hevents'.trans (List.append_assoc ..)
    · simp [or_assoc]

theorem options_run (o : CycleOptions) (solver : Solver) (ks : List Call) :
    ((start o solver).run ks).cycle.options = o :=
  run_keeps (P := fun s => s.cycle.options = o) rfl fun s _ _ ho =>
    (step_perform s.cycle).options.trans ho

/-- After a cycle was given up or reset, like calls have the same results as on a new cycle with
the same options, whatever came before, and they leave the same state, history, plan and
problems, with universes that differ in their generation alone. The configuration and the
solver are those of the new cycle as soon as the configuration is loaded. -/
theorem starts_afresh (o : CycleOptions) (solver solver' : Solver) (generation : Nat)
    (before : List Call) (again : Call) (after after' : List Call)
    (hagain : again.startsOver = true) (hafter : List.Forall₂ (Call.Alike o) after after') :
    let used := ((start o solver).run before).call again
    let fresh : Session := { cycle := { options := o, solver := solver', generation } }
    ∃ events events', (used.run after).events = used.events ++ events ∧
      (fresh.run after').events = events' ∧ List.Forall₂ (Event.Alike o) events events' ∧
      (used.run after).cycle.Alike (∃ e ∈ events, e.Configured) (fresh.run after').cycle := by
  intro used fresh
  have ho := options_run o solver before
  have hreset : used.cycle = ((start o solver).run before).cycle.reset := by
    cases again <;> first | rfl | cases hagain
  have hs : used.cycle.Alike False fresh.cycle := by
    rw [hreset]
    exact ⟨ho.symm, rfl, rfl, rfl, .none, .none, rfl, rfl, rfl, nofun⟩
  have hm : used.cycle.Midway False := by
    rw [hreset]
    exact fun hinit _ => hinit rfl
  obtain ⟨events, events', hevents, hevents', hall, hend⟩ :=
    run_alike hs hm (hreset ▸ ho) hafter
  exact ⟨events, events', hevents, hevents'.trans (List.nil_append _), hall, hend.mono .inr⟩

/-- A cycle from configuration to transaction that asks for one tool. -/
def toolCycle (host : Host) : List Call :=
  let x : Executor := { execute := fun _ _ => .ok () }
  [.loadConfig host, .downloadMetadata [⟨"base", defaultPriority, .memory [.noarch "tool" "1"]⟩],
    .loadSack, .buildTransaction, .addRequest (.installDependency { name := "tool" }) {},
    .resolve {}, .downloadPackages x, .testTransaction x, .runTransaction x, .takePlan]

/-- The tool is excluded in the first cycle, which is given up, and installed in the second. -/
theorem toolCycle_starts_afresh :
    let o : CycleOptions := { useEnvironment := true }
    let tried := (start o (Settings.solver {})).run
      (toolCycle { env := [("RPMSOLVE_EXCLUDES", "tool")] })
    let used := tried.call .abandon
    let fresh : Session :=
      { cycle := { options := o, solver := Settings.solver {}, generation := 5 } }
    tried.cycle.problems ≠ [] ∧ used.cycle.config.settings.excludes = ["tool"] ∧
      (fresh.run (toolCycle {})).cycle.state = .transaction ∧
      List.Forall₂ (Call.Alike o) (toolCycle {}) (toolCycle {}) ∧
      ∃ events events', (used.run (toolCycle {})).events = used.events ++ events ∧
        (fresh.run (toolCycle {})).events = events' ∧
        List.Forall₂ (Event.Alike o) events events' ∧
        (used.run (toolCycle {})).cycle.Alike (∃ e ∈ events, e.Configured)
          (fresh.run (toolCycle {})).cycle := by
  intro o tried used fresh
  have hexecutor : ∀ x : Executor, x = { execute := fun _ _ => .ok () } → x.Alike x := by
    rintro x rfl
    exact ⟨fun _ _ _ _ => rfl, fun _ _ _ _ => rfl, fun _ _ _ _ => rfl⟩
  have hcalls : List.Forall₂ (Call.Alike o) (toolCycle {}) (toolCycle {}) :=
    .cons (.same rfl) <| .cons (.same rfl) <| .cons (.same rfl) <| .cons (.same rfl) <|
      .cons (.same rfl) <| .cons (.same rfl) <| .cons (.downloadPackages (hexecutor _ rfl)) <|
      .cons (.testTransaction (hexecutor _ rfl)) <| .cons (.runTransaction (hexecutor _ rfl)) <|
      .cons (.same rfl) .nil
  exact ⟨by decide +kernel, by decide +kernel, by decide +kernel, hcalls,
    starts_afresh o (Settings.solver {}) (Settings.solver {}) 5
      (toolCycle { env := [("RPMSOLVE_EXCLUDES", "tool")] }) .abandon _ _ rfl hcalls⟩

end Session

end Depsolve
