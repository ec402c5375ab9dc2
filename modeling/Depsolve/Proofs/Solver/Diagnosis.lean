import Depsolve.Proofs.Solver.Contradiction
import Depsolve.Proofs.Solver.WorkingCopy
/-!
# What a report of a missing provider means

A search that fails reports a requirement that it found missing in one of its trials. Whether
there are providers is judged in that trial, when those that were taken off and those that would
be downgrades are passed over already. So what nothing provides by the report can have providers.
-/
namespace Depsolve

open Relation

/-- A requirement is reported because it was noted further down, or by the complaint itself. -/
theorem Complaint.failure_eq_missing {c : Complaint} {deeper : Option Failure}
    {package : PackageId} {d : Dependency} {hadProviders : Bool}
    (h : c.failure deeper = .missing package d hadProviders) :
    deeper = some (.missing package d hadProviders) ∨
      c = .missing package d hadProviders false := by
  cases c with
  | conflict first second guardedOne => cases guardedOne <;> cases h
  | missing first need hadSome isGuarded =>
    cases isGuarded with
    | true => cases h
    | false =>
      cases deeper with
      | none =>
        cases h
        exact .inr rfl
      | some e =>
        cases e with
        | missing => exact .inl (congrArg some h)
        | conflict | guarded => cases h
        | pinned | forbidden | notApplicable | stepLimit =>
          cases h
          exact .inr rfl

namespace Search

variable {s : Search} {r : Rules} {job : Job} {t t' t₀ : Trial} {v : Violation} {e : Failure}
  {deeper : Option Failure} {id : PackageId} {left left' : Nat} {b : Bool}
  {shown shown' : Sight → Prop}

variable (s) in
/-- A requirement that a failure calls missing was shown to be missing, and whether it had providers
was judged in the trial in which it was shown. -/
def Justified (shown : Sight → Prop) (e : Failure) : Prop :=
  ∀ package d hadProviders, e = .missing package d hadProviders →
    ∃ r t, shown (.choicePoint r t (.missing package d)) ∧
      hadProviders = !(s.providers r t d).isEmpty

theorem Justified.of_ne (h : ∀ package d hadProviders, e ≠ .missing package d hadProviders) :
    s.Justified shown e :=
  fun package d hadProviders heq => absurd heq (h package d hadProviders)

theorem Justified.mono (hshown : ∀ x, shown x → shown' x) (h : s.Justified shown e) :
    s.Justified shown' e := by
  intro package d hadProviders heq
  obtain ⟨r, t, hseen, hjudged⟩ := h package d hadProviders heq
  exact ⟨r, t, hshown _ hseen, hjudged⟩

section Settling

theorem justified_of_add (h : s.add t id = .error e) : s.Justified shown e := by
  apply Justified.of_ne
  rintro package d hadProviders rfl
  rcases add_eq_error h with heq | ⟨other, heq | heq⟩ <;> cases heq

theorem justified_complaint (hv : shown (.choicePoint r t v))
    (hdeeper : ∀ e ∈ deeper, s.Justified shown e) :
    s.Justified shown ((s.complaint r t v).failure deeper) := by
  intro package d hadProviders heq
  rcases Complaint.failure_eq_missing heq with hnoted | hown
  · exact hdeeper _ hnoted package d hadProviders rfl
  · cases v with
    | conflict first second => cases hown
    | missing first need =>
      obtain ⟨rfl, rfl, hjudged, -⟩ := Complaint.missing.inj hown
      exact ⟨r, t, hv, hjudged.symm⟩

theorem justified_of_orElse (hdeeper : ∀ e ∈ deeper, s.Justified shown e)
    (he : s.Justified shown e) : ∀ e' ∈ deeper <|> some e, s.Justified shown e' := by
  cases deeper with
  | none => simpa using he
  | some first => simpa using hdeeper

variable (s) in
/-- A choice point with the complaint of a violation that was shown in its trial, and with nothing
noted that is not justified. -/
def Accounted (shown : Sight → Prop) (c : ChoicePoint) : Prop :=
  (∃ r v, shown (.choicePoint r c.base v) ∧ c.complaint = s.complaint r c.base v) ∧
    ∀ e ∈ c.deeper, s.Justified shown e

theorem Accounted.noted {c : ChoicePoint} (hc : s.Accounted shown c) (he : s.Justified shown e) :
    ∀ e' ∈ c.noted e, s.Justified shown e' := by
  rw [ChoicePoint.noted]
  split
  · exact justified_of_orElse hc.2 he
  · exact hc.2

theorem tryRepairs_justified (reps : List Repair) (hv : shown (.choicePoint r t v))
    (hdeeper : ∀ e ∈ deeper, s.Justified shown e) :
    (∀ t' c, s.tryRepairs t (s.complaint r t v) reps deeper = .ok (t', c) →
      s.Accounted shown c) ∧
    ∀ e, s.tryRepairs t (s.complaint r t v) reps deeper = .error e → s.Justified shown e := by
  induction reps generalizing deeper with
  | nil =>
    refine ⟨fun t' c h => ?_, fun e h => ?_⟩
    · cases h
    · cases h
      exact justified_complaint hv hdeeper
  | cons rep reps ih =>
    rw [tryRepairs]
    cases hrep : s.repair t rep with
    | ok t₁ =>
      refine ⟨fun t' c h => ?_, fun e h => ?_⟩
      · cases h
        exact ⟨⟨r, v, hv, rfl⟩, hdeeper⟩
      · cases h
    | error e₁ =>
      have he₁ : s.Justified shown e₁ := by
        cases rep with
        | remove id => cases hrep
        | add id => exact justified_of_add hrep
      exact ih (justified_of_orElse hdeeper he₁)

theorem unwind_justified {stack : List ChoicePoint} (hstack : ∀ c ∈ stack, s.Accounted shown c)
    (he : s.Justified shown e) :
    (∀ t' stack', s.unwind e stack = .ok (t', stack') → ∀ c ∈ stack', s.Accounted shown c) ∧
    ∀ e', s.unwind e stack = .error e' → s.Justified shown e' := by
  induction stack generalizing e with
  | nil =>
    refine ⟨fun t' stack' h => ?_, fun e' h => ?_⟩
    · cases h
    · cases h
      exact he
  | cons c stack ih =>
    obtain ⟨hc, hbelow⟩ := List.forall_mem_cons.mp hstack
    obtain ⟨r, v, hv, hcomplaint⟩ := hc.1
    obtain ⟨hok, herror⟩ := tryRepairs_justified c.untried hv (hc.noted he)
    rw [unwind, hcomplaint]
    cases htry : s.tryRepairs c.base (s.complaint r c.base v) c.untried (c.noted e) with
    | ok found =>
      refine ⟨fun t' stack' h => ?_, fun e' h => ?_⟩
      · cases h
        exact List.forall_mem_cons.mpr ⟨hok found.1 found.2 htry, hbelow⟩
      · cases h
    | error e₁ => exact ih hbelow (herror e₁ htry)

theorem advance_justified {stack : List ChoicePoint} (hv : shown (.choicePoint r t v))
    (hstack : ∀ c ∈ stack, s.Accounted shown c) :
    (∀ t' stack', s.advance r t v stack = .ok (t', stack') → ∀ c ∈ stack', s.Accounted shown c) ∧
    ∀ e, s.advance r t v stack = .error e → s.Justified shown e := by
  have hnothing : ∀ e ∈ (none : Option Failure), s.Justified shown e := by simp
  obtain ⟨hok, herror⟩ := tryRepairs_justified (s.repairs r t v) hv hnothing
  rw [advance]
  cases htry : s.tryRepairs t (s.complaint r t v) (s.repairs r t v) none with
  | ok found =>
    refine ⟨fun t' stack' h => ?_, fun e h => ?_⟩
    · cases h
      exact List.forall_mem_cons.mpr ⟨hok found.1 found.2 htry, hstack⟩
    · cases h
  | error e₁ => exact unwind_justified hstack (herror e₁ htry)

theorem settleFrom_justified {stack : List ChoicePoint}
    (ht : ReflTransGen (s.RepairStep r) t₀ t) (hopen : ∀ c ∈ stack, s.Open r t₀ c)
    (hstack : ∀ c ∈ stack, s.Accounted (s.Witnessed r t₀) c)
    (h : s.settleFrom r left t stack = .stuck e left') : s.Justified (s.Witnessed r t₀) e := by
  -- the trial stays reachable from `t₀`, and what the stack has noted stays justified
  induction left generalizing t stack with
  | zero => cases h
  | succ left ih =>
    rw [settleFrom] at h
    split at h
    · cases h
    · rename_i v hv
      obtain ⟨hok, herror⟩ := advance_justified (.choicePoint ht hv) hstack
      split at h
      · rename_i t₁ stack₁ hadvance
        obtain ⟨ht₁, hopen₁⟩ := advance_eq_ok ht hv hopen hadvance
        exact ih ht₁ hopen₁ (hok t₁ stack₁ hadvance) h
      · rename_i e₁ hadvance
        cases h
        exact herror e hadvance

theorem settle_justified (h : s.settle r t left = .stuck e left') :
    s.Justified (s.Witnessed r t) e := by
  rw [settle_eq_settleFrom] at h
  exact settleFrom_justified .refl (by simp) (by simp) h

end Settling

section Jobs

theorem Justified.of_steps (hsteps : ReflTransGen (s.Step r job) t t')
    (h : s.Justified (s.Shows r job t') e) : s.Justified (s.Shows r job t) e :=
  h.mono fun _ hx => hx.of_steps hsteps

theorem Justified.of_witnessed
    (h : s.Justified (s.Witnessed { r with eraseDependents := b } t') e)
    (hb : b = true → job.kind = .erase) (hsteps : ReflTransGen (s.Step r job) t t') :
    s.Justified (s.Shows r job t) e :=
  h.mono fun _ hx => ⟨t', b, hsteps, hb, hx⟩

theorem choose_justified {reason : Option Reason} (hr : r.eraseDependents = false)
    (hwanted : s.Wanted r job t id) (h : (s.choose r reason t id left).result = .error e) :
    s.Justified (s.Shows r job t) e := by
  have hb : r.eraseDependents = true → job.kind = .erase := fun h => absurd (hr ▸ h) (by decide)
  simp only [choose] at h
  split at h
  · rename_i e₁ hadd
    cases h
    exact justified_of_add hadd
  · rename_i t₁ hadd
    split at h
    · cases h
    · rename_i e₁ left₁ hsettle
      cases h
      exact (settle_justified hsettle).of_witnessed hb (steps_of_pinned_add reason hwanted hadd).1
    · cases h
      exact .of_ne (by simp)

theorem chooseFirst_justified {reason : Option Reason} {ids : List PackageId}
    {first : Option Failure} (hr : r.eraseDependents = false)
    (hwanted : ∀ id ∈ ids, s.Wanted r job t id)
    (hfirst : ∀ e ∈ first, s.Justified (s.Shows r job t) e)
    (h : (s.chooseFirst r reason t ids first left).result = .error e) :
    s.Justified (s.Shows r job t) e := by
  induction ids generalizing first left with
  | nil =>
    cases h
    cases first with
    | none => exact .of_ne (by simp)
    | some e => exact hfirst e rfl
  | cons id ids ih =>
    obtain ⟨hid, hrest⟩ := List.forall_mem_cons.mp hwanted
    rw [chooseFirst] at h
    split at h
    · cases h
    · cases h
      exact .of_ne (by simp)
    · rename_i e₁ _ hchoose
      exact ih hrest (justified_of_orElse hfirst (choose_justified hr hid hchoose)) h

theorem install_justified (hr : r.eraseDependents = false) (hkind : job.kind = .install)
    (h : (s.install r job t left).result = .error e) : s.Justified (s.Shows r job t) e := by
  rw [install_eq] at h
  split at h
  · cases h
  · rename_i hnone
    have habsent : ∀ c ∈ s.candidates job, c ∉ t.present := List.find?_eq_none.mp hnone
    split at h
    · cases h
      exact .of_ne (by simp)
    · exact chooseFirst_justified hr
        (fun id hid => .chosen hkind (mem_installOrder hid).1 habsent) (by simp) h

theorem erase_justified (hkind : job.kind = .erase)
    (hguarded : ∀ id ∈ s.candidates job, id ∉ s.guarded)
    (h : (s.erase r job t left).result = .error e) : s.Justified (s.Shows r job t) e := by
  rw [erase] at h
  dsimp only at h
  split at h
  · cases h
    exact .of_ne (by simp)
  · split at h
    · rename_i e₁ htake
      cases h
      obtain ⟨id, rfl⟩ := takeOff_eq_error htake
      exact .of_ne (by simp)
    · rename_i bare htake
      obtain ⟨hpinned, rfl⟩ := takeOff_eq_ok htake
      split at h
      · cases h
        exact .of_ne (by simp)
      · rename_i e₁ left₁ hsettle
        cases h
        exact (settle_justified hsettle).of_witnessed (fun _ => hkind)
          (steps_of_targets hkind hguarded hpinned)
      · split at h <;> cases h

theorem forEach_justified {candidates : Trial → PackageId → List PackageId}
    {act : Trial → PackageId → List PackageId → Nat → Attempt} {ids : List PackageId}
    (hact : ∀ id ∈ ids, ∀ t t' left, id ∈ t.present →
      (act t id (candidates t id) left).result = .ok t' → ReflTransGen (s.Step r job) t t')
    (hfail : ∀ id ∈ ids, ∀ t left e, id ∈ t.present →
      (act t id (candidates t id) left).result = .error e → s.Justified (s.Shows r job t) e)
    (h : (forEach candidates act ids t left).result = .error e) :
    s.Justified (s.Shows r job t) e := by
  induction ids generalizing t left with
  | nil => cases h
  | cons id ids ih =>
    obtain ⟨hacts, hactsRest⟩ := List.forall_mem_cons.mp hact
    obtain ⟨hfails, hfailsRest⟩ := List.forall_mem_cons.mp hfail
    rw [forEach] at h
    split at h
    · exact ih hactsRest hfailsRest h
    · rename_i hvisit
      have hpresent : id ∈ t.present := mem_of_visited hvisit
      rw [Attempt.andThen] at h
      split at h
      · rename_i e₁ hresult
        cases h
        exact hfails t left e hpresent hresult
      · rename_i t₁ hresult
        exact (ih hactsRest hfailsRest h).of_steps (hacts t t₁ left hpresent hresult)

theorem chooseSuccessor_justified {old : PackageId} (hr : r.eraseDependents = false)
    (hold : old ∈ s.initial) (hpresent : old ∈ t.present)
    (h : (s.chooseFirst r none t (s.successors r job t old) none left).result = .error e) :
    s.Justified (s.Shows r job t) e :=
  chooseFirst_justified hr (fun _ hid => .successor hold hpresent hid) (by simp) h

theorem replaceOrKeep_justified {old : PackageId} (hr : r.eraseDependents = false)
    (hold : old ∈ s.initial) (hpresent : old ∈ t.present)
    (h : (s.replaceOrKeep r t old (s.successors r job t old) left).result = .error e) :
    s.Justified (s.Shows r job t) e := by
  rw [replaceOrKeep] at h
  split at h
  · exact chooseSuccessor_justified hr hold hpresent h
  · exact chooseSuccessor_justified hr hold hpresent h
  · split at h
    · exact chooseSuccessor_justified hr hold hpresent h
    · cases h

theorem move_justified (hr : r.eraseDependents = false)
    (h : (s.move r job t (s.successors r job) left).result = .error e) :
    s.Justified (s.Shows r job t) e := by
  rw [move] at h
  split at h
  · cases h
    exact .of_ne (by simp)
  · exact forEach_justified
      (fun _ hold _ _ _ => replaceOrKeep_steps hr (mem_of_mem_movable hold).2)
      (fun _ hold _ _ _ => replaceOrKeep_justified hr (mem_of_mem_movable hold).2) h

theorem downgrade_justified (hr : r.eraseDependents = false) (hkind : job.kind = .downgrade)
    (h : (s.downgrade r job t left).result = .error e) : s.Justified (s.Shows r job t) e := by
  rw [downgrade, ← successors_of_downgrade (r := r) hkind] at h
  split at h
  · cases h
    exact .of_ne (by simp)
  · split at h
    · cases h
      exact .of_ne (by simp)
    · exact forEach_justified
        (fun _ hold _ _ _ => chooseSuccessor_steps hr (mem_of_mem_movable hold).2)
        (fun _ hold _ _ _ => chooseSuccessor_justified hr (mem_of_mem_movable hold).2) h

theorem carryOut_justified (hr : r.eraseDependents = false)
    (hguarded : job.kind = .erase → ∀ id ∈ s.candidates job, id ∉ s.guarded)
    (h : (s.carryOut r job t left).result = .error e) : s.Justified (s.Shows r job t) e := by
  have hmove : ∀ candidatesOf, s.successors r job = candidatesOf →
      (s.move r job t candidatesOf left).result = .error e → s.Justified (s.Shows r job t) e := by
    rintro _ rfl
    exact move_justified hr
  cases hkind : job.kind <;> simp only [carryOut, hkind] at h
  case install => exact install_justified hr hkind h
  case erase => exact erase_justified hkind (hguarded hkind) h
  case upgrade => exact hmove _ (successors_of_upgrade (.inl hkind)) h
  case upgradeAll => exact hmove _ (successors_of_upgrade (.inr hkind)) h
  case distroSync => exact hmove _ (successors_of_sync (.inl hkind)) h
  case distroSyncAll => exact hmove _ (successors_of_sync (.inr hkind)) h
  case downgrade => exact downgrade_justified hr hkind h
  case reasonChange =>
    rw [changeReason] at h
    dsimp only at h
    split at h
    · cases h
      exact .of_ne (by simp)
    · cases h
  case guard => cases h

theorem Shows.choicePoint {r' : Rules} (h : s.Shows r job t (.choicePoint r' t' v)) :
    r'.allowDowngrade = r.allowDowngrade ∧ s.firstViolation? t' = some v := by
  obtain ⟨t₁, b, -, -, hwitnessed⟩ := h
  cases hwitnessed with
  | choicePoint _ hv => exact ⟨rfl, hv⟩

end Jobs

end Search

/-- The failures that name a missing requirement are those that report it as unresolvable. -/
theorem Failure.eq_missing_of_kind {u : Universe} {job : Job} {maxSteps : Nat} {e : Failure}
    (h : (e.problem u job maxSteps).kind = .unresolvable) :
    ∃ package d hadProviders, e = .missing package d hadProviders := by
  cases e with
  | missing package d hadProviders => exact ⟨package, d, hadProviders, rfl⟩
  | _ => cases h

namespace Solver

/-- Why a provider is passed over although no exclude hides it: a job may have removed it, or it
would take the place of a newer build where that is not allowed. -/
inductive PassedOver (solver : Solver) (u : Universe) (jobs : List Job) (call : Demands)
    (job : Job) (q : PackageId) : Prop
  | removed {eraser : Job} (heraser : eraser ∈ jobs)
      (hallowed : (Rules.ofJob eraser call).allowErasing = true ∨ eraser.kind = .erase)
      (hinstalled : q ∈ u.installed) (hunprotected : ¬ solver.Protects u jobs q)
  | downgrade (hforbids : (Rules.ofJob job call).allowDowngrade = false)
      (hsingle : solver.isInstallonly (u.get q) = false) {newer : PackageId}
      (hconsidered : newer ∈ u.considered) (hname : (u.get newer).name = (u.get q).name)
      (hfamily : (u.get q).sameArchFamily (u.get newer) = true)
      (hnewer : (u.get newer).evr.newer (u.get q).evr = true)

def nothingProvides (u : Universe) (job : Job) (p : PackageId) (d : Dependency) : String :=
  let context := s!"cannot {job.kind.text} {job.spec}"
  s!"{context}: nothing provides {d.text} needed by {(u.get p).nevra}"

def noneInstallable (u : Universe) (job : Job) (p : PackageId) (d : Dependency) : String :=
  let context := s!"cannot {job.kind.text} {job.spec}"
  s!"{context}: {(u.get p).nevra} requires {d.text}, but none of the providers " ++
    "can be installed"

variable {solver : Solver} {u : Universe} {jobs : List Job} {call : Demands} {job : Job}
  {t t' : Trial} {problems : List Problem} {x : Problem}

theorem Run.removed (h : solver.Run u jobs call { present := u.installed.members } t) :
    ∀ q ∈ t.forbidden, q ∈ u.installed ∧ ¬ solver.Protects u jobs q ∧
      ∃ eraser ∈ jobs,
        (Rules.ofJob eraser call).allowErasing = true ∨ eraser.kind = .erase := by
  refine (h.preserves (P := fun t => ∀ q ∈ t.forbidden, q ∈ u.installed ∧
    ¬ solver.Protects u jobs q ∧ ∃ eraser ∈ jobs,
      (Rules.ofJob eraser call).allowErasing = true ∨ eraser.kind = .erase)
    Search.coherent_initial (by simp) ?_).2
  intro eraser heraser t₁ t₂ _ ht hstep q hq
  rcases hstep.of_mem_forbidden hq with hbefore | ⟨hinitial, hguarded, hallowed⟩
  · exact ht q hbefore
  · exact ⟨Search.mem_initial.mp hinitial,
      fun hprotects => hguarded (mem_guardedPackages.mpr hprotects),
      eraser, mem_of_mem_admitted heraser, hallowed⟩

theorem passedOver_of_notMem {r : Rules} {d : Dependency} {q : PackageId}
    (h : solver.Run u jobs call { present := u.installed.members } t)
    (hr : r.allowDowngrade = (Rules.ofJob job call).allowDowngrade)
    (hprovides : q ∈ u.whatProvides d) (hconsidered : q ∈ u.considered)
    (hnot : q ∉ (solver.search u jobs).providers r t d) :
    solver.PassedOver u jobs call job q := by
  by_cases hforbidden : q ∈ t.forbidden
  · obtain ⟨hinstalled, hunprotected, eraser, heraser, hallowed⟩ := h.removed q hforbidden
    exact .removed heraser hallowed hinstalled hunprotected
  · have hbad : r.allowDowngrade ≠ true ∧ (solver.search u jobs).isDowngrade t q ≠ false := by
      by_contra hgood
      rw [← not_or, not_not] at hgood
      exact hnot (Search.mem_providers.mpr ⟨hprovides, hconsidered, hforbidden, hgood⟩)
    obtain ⟨hsingle, other, -, hname, hpresent, hfamily, hnewer⟩ :=
      Search.isDowngrade_iff.mp (eq_true_of_ne_false hbad.2)
    have hforbids := eq_false_of_ne_true hbad.1
    have hthere := (h.coherent Search.coherent_initial).considered other hpresent
    exact .downgrade (hr ▸ hforbids) hsingle hthere hname hfamily hnewer

theorem exists_of_unresolvable (h : (solver.solve u jobs call).outcome = .error problems)
    (hx : x ∈ problems) (hkind : x.kind = .unresolvable) :
    ∃ job ∈ solver.admitted u jobs, ∃ t package d hadProviders,
      solver.Run u jobs call { present := u.installed.members } t ∧
      ((solver.search u jobs).turn call t job).result =
        .error (.missing package d hadProviders) ∧
      x = (Failure.missing package d hadProviders).problem u job solver.maxSteps := by
  have hproblems : problems = solver.problemsAt u jobs call jobs.length := by
    rw [← solve_problems, Solution.problems, h]
  rw [hproblems, problemsAt, List.take_length] at hx
  rcases List.mem_append.mp hx with hcheck | hfault
  · exact absurd hkind (Search.kind_of_mem_precheck hcheck)
  · obtain ⟨before, job, later, hadmitted, hfault⟩ := Search.mem_faultsOf hfault
    obtain ⟨e, hresult, rfl⟩ := Search.mem_faults hfault
    obtain ⟨package, d, hadProviders, rfl⟩ := Failure.eq_missing_of_kind hkind
    have hadmitted : solver.admitted u jobs = before ++ job :: later := hadmitted
    have hbefore : before ⊆ solver.admitted u jobs := hadmitted ▸ List.subset_append_left _ _
    exact ⟨job, hadmitted ▸ List.mem_append_right _ List.mem_cons_self, _, package, d,
      hadProviders, run_foldl_after hbefore _, hresult, rfl⟩

/-- Each problem of a requirement without a provider names a package and one of its requirements.
If it says that nothing provides the requirement, every provider that no exclude hides was passed
over. Otherwise there is a provider. -/
theorem solve_explains (h : (solver.solve u jobs call).outcome = .error problems)
    (hx : x ∈ problems) (hkind : x.kind = .unresolvable) :
    ∃ job ∈ jobs, ∃ p ∈ u.considered, ∃ d ∈ (u.get p).requires,
      x.packages = [p] ∧ x.dependency = some d.text ∧
      (x.message = nothingProvides u job p d ∧ (∀ q ∈ u.considered,
          (u.get q).providesDep d = true → solver.PassedOver u jobs call job q) ∨
        x.message = noneInstallable u job p d ∧
          ∃ q ∈ u.considered, (u.get q).providesDep d = true) := by
  obtain ⟨job, hjob, t, p, d, hadProviders, hrun, hresult, rfl⟩ :=
    exists_of_unresolvable h hx hkind
  obtain ⟨r, t', hshows, hjudged⟩ := Search.carryOut_justified (by rfl)
    (fun hkind _ hid => unguarded_of_mem_admitted hjob hkind hid) hresult p d hadProviders rfl
  obtain ⟨hr, hviolation⟩ := hshows.choicePoint
  obtain ⟨hpresent, hd, -⟩ := Search.firstViolation?_eq_missing hviolation
  have hrun' : solver.Run u jobs call { present := u.installed.members } t' :=
    hrun.trans (run_of_steps hjob hshows.steps)
  have hp := (hrun'.coherent Search.coherent_initial).considered p hpresent
  refine ⟨job, mem_of_mem_admitted hjob, p, hp, d, hd, ?_⟩
  cases hadProviders with
  | true =>
    have hsome : (solver.search u jobs).providers r t' d ≠ [] := by simpa using hjudged.symm
    obtain ⟨q, hq⟩ := List.exists_mem_of_ne_nil _ hsome
    obtain ⟨hprovides, hconsidered, -⟩ := Search.mem_providers.mp hq
    exact ⟨rfl, rfl, .inr ⟨rfl, q, hconsidered, Universe.mem_whatProvides_iff.mp hprovides⟩⟩
  | false =>
    have hnone : (solver.search u jobs).providers r t' d = [] := by simpa using hjudged.symm
    refine ⟨rfl, rfl, .inl ⟨rfl, fun q hconsidered hprovides => ?_⟩⟩
    exact passedOver_of_notMem hrun' hr (Universe.mem_whatProvides_iff.mpr hprovides) hconsidered
      (by simp [hnone])

def libAndApp : Universe :=
  .sample [.noarch "lib" "1"] [.noarch "app" "1" [("requires", "lib")]] (by decide +kernel)

def libErased : Job := { kind := .erase, spec := "lib", target := .packages (.ofIds 1 2 [0]) }

def appWanted : Job := { kind := .install, spec := "app", target := .packages (.ofIds 1 2 [1]) }

/-- What is reported when the library is erased and the application wanted. -/
def libNotProvided : Problem where
  kind := .unresolvable
  message := "cannot install app: nothing provides lib needed by app-1-1.noarch"
  packages := [1]
  dependency := some "lib"

/-- The library was passed over, although it is a provider. -/
theorem libErased_explains : ∃ job ∈ [libErased, appWanted],
    (Solver.mk [] [] 100 none).PassedOver libAndApp [libErased, appWanted] {} job 0 := by
  have hsolve : ((Solver.mk [] [] 100 none).solve libAndApp [libErased, appWanted]
      {}).outcome = .error [libNotProvided] := Solution.outcome_eq_error (by decide +kernel)
  obtain ⟨job, hjob, p, -, d, hd, hpackages, -, hmessage⟩ :=
    solve_explains hsolve List.mem_cons_self rfl
  obtain rfl : 1 = p := (List.cons.inj hpackages).1
  have hlib : ∀ d ∈ (libAndApp.get 1).requires, (libAndApp.get 0).providesDep d = true ∧
      ∀ job ∈ [libErased, appWanted],
        libNotProvided.message ≠ noneInstallable libAndApp job 1 d := by decide +kernel
  obtain ⟨hprovides, hother⟩ := hlib d hd
  rcases hmessage with ⟨-, hpassed⟩ | ⟨hmessage, -⟩
  · exact ⟨job, hjob, hpassed 0 (by decide +kernel) hprovides⟩
  · exact absurd hmessage (hother job hjob)

/-- Nothing is said to provide what the installed library provides. -/
theorem libErased_misreported :
    ((Solver.mk [] [] 100 none).solve libAndApp [libErased, appWanted] {}).outcome =
      .error [libNotProvided] ∧
    ∃ d ∈ (libAndApp.get 1).requires,
      libNotProvided.message = nothingProvides libAndApp appWanted 1 d ∧
      0 ∈ libAndApp.considered ∧ (libAndApp.get 0).providesDep d = true :=
  ⟨Solution.outcome_eq_error (by decide +kernel), by decide +kernel⟩

/-- A newer build than the one that an application needs. -/
def mailAndApp : Universe :=
  .sample [.noarch "mail" "3"]
    [.noarch "mail" "1", .noarch "app" "1" [("requires", "mail = 1")]] (by decide +kernel)

def mailAppWanted : Job :=
  { kind := .install, spec := "app", target := .packages (.ofIds 1 3 [2]) }

def mailNotProvided : Problem where
  kind := .unresolvable
  message := "cannot install app: nothing provides mail = 1 needed by app-1-1.noarch"
  packages := [2]
  dependency := some "mail = 1"

/-- Nothing is said to provide what only an older build provides. -/
theorem mailKept_misreported :
    ((Solver.mk [] [] 100 none).solve mailAndApp [mailAppWanted] {}).outcome =
      .error [mailNotProvided] ∧
    ∃ d ∈ (mailAndApp.get 2).requires,
      mailNotProvided.message = nothingProvides mailAndApp mailAppWanted 2 d ∧
      1 ∈ mailAndApp.considered ∧ (mailAndApp.get 1).providesDep d = true :=
  ⟨Solution.outcome_eq_error (by decide +kernel), by decide +kernel⟩

end Solver

end Depsolve
