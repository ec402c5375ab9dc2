import Depsolve.Config
import Depsolve.Proofs.Json.Outermost
import Depsolve.Proofs.Settings.Value
/-!
# Layers of a configuration

A value and its source are written together, whether a file, a variable or the caller gives the
value. So each setting has both from the highest layer that has something to say about it, and no
layer says anything about a setting by speaking of another one.
-/
namespace Depsolve

/-- The members of the object that a file holds, if it holds an object. A key that is repeated in
the text has its last value in the object. A missing file holds no members. -/
def FileContent.object? : FileContent → Option (List (String × Json))
  | .missing _ => some []
  | .unreadable _ => none
  | .text s =>
    match Json.read s with
    | .ok (.object members) => some members
    | _ => none

/-- The variable of a setting is read, is set to a text that is not empty, and the text is
understood if it is to name a cache level or a number of steps. -/
structure EnvironmentReader.Speaks (r : EnvironmentReader) (key : SettingKey) (text : String) :
    Prop where
  enabled : r.enabled = true
  set : r.env.get? (Environment.varName key.text) = some text
  nonempty : text ≠ ""
  understood : key = .cacheOnly ∨ key = .maxSolverSteps → (key.ofText? text).isSome = true

namespace Config

variable {c c' : Config} {key other : SettingKey} {source : ConfigSource} {name : String}
variable {members : List (String × Json)} {r : EnvironmentReader}

/-- No setting has the name, or the value is of the wrong kind for it. -/
def Unfit (name : String) (v : Json) : Prop :=
  ∀ key : SettingKey, name = key.text → ¬key.Takes v

theorem Unfit.ofJson?_eq_none {v : Json} (h : Unfit name v) (hname : name = key.text) :
    key.ofJson? v = none := by
  rw [← Option.not_isSome_iff_eq_none, SettingKey.ofJson?_isSome_iff]
  exact h key hname

def entry (c : Config) (key : SettingKey) : key.Value × Option ConfigSource :=
  (c.settings.value key, c.source? key)

def assign (c : Config) (key : SettingKey) (v : key.Value) (source : ConfigSource) : Config :=
  ⟨c.settings.put key v, Association.set key source c.sources⟩

@[simp] theorem entry_assign_self (c : Config) (v : key.Value) (source : ConfigSource) :
    (c.assign key v source).entry key = (v, some source) := by
  simp [entry, assign, source?]

theorem entry_assign_of_ne (h : other ≠ key) (c : Config) (v : key.Value)
    (source : ConfigSource) : (c.assign key v source).entry other = c.entry other := by
  simp [entry, assign, source?, Settings.value_put_of_ne h, Association.lookup_set_of_ne h]

/-! ### Writing by name -/

theorem write_cases (c : Config) (name : String) (v : Json) (source : ConfigSource) :
    (Unfit name v ∧ ∃ e, c.write name v source = .error e) ∨
      ∃ (key : SettingKey) (w : key.Value), name = key.text ∧ key.ofJson? v = some w ∧
        c.write name v source = .ok (c.assign key w source) := by
  unfold write
  split
  · next hnone =>
    refine .inl ⟨?_, _, rfl⟩
    rintro key rfl
    rw [SettingKey.parse?_text] at hnone
    nomatch hnone
  · next key hkey =>
    have hname := SettingKey.parse?_eq_some_iff.mp hkey
    rw [Settings.write?_eq]
    cases hvalue : key.ofJson? v with
    | none =>
      refine .inl ⟨?_, _, rfl⟩
      intro other hother
      rw [← SettingKey.text_injective (hname.symm.trans hother), ← SettingKey.ofJson?_isSome_iff,
        hvalue]
      exact Bool.false_ne_true
    | some w => exact .inr ⟨key, w, hname, hvalue, rfl⟩

/-- What a file with these members says about a setting. -/
inductive Says (source : ConfigSource) (members : List (String × Json)) (c : Config)
    (key : SettingKey) : key.Value × Option ConfigSource → Prop
  | member {v : Json} {w : key.Value} (hmember : (key.text, v) ∈ members)
    (hvalue : key.ofJson? v = some w) : Says source members c key (w, some source)
  | absent (habsent : key.text ∉ members.map Prod.fst) : Says source members c key (c.entry key)

/-- One unfit member is enough to refuse all of them, and otherwise each member is written. -/
theorem writeAll_cases (source : ConfigSource) (members : List (String × Json)) (c : Config) :
    ((∃ m ∈ members, Unfit m.1 m.2) ∧ ∃ e, writeAll source members c = .error e) ∨
      (∀ m ∈ members, ¬Unfit m.1 m.2) ∧ ∃ c', writeAll source members c = .ok c' ∧
        ∀ key, Says source members c key (c'.entry key) := by
  induction members generalizing c with
  | nil => exact .inr ⟨nofun, c, rfl, fun key => .absent List.not_mem_nil⟩
  | cons m members ih =>
    obtain ⟨name, v⟩ := m
    obtain ⟨hunfit, e, hwrite⟩ | ⟨key, w, hname, hvalue, hwrite⟩ := write_cases c name v source
    · exact .inl ⟨⟨_, List.mem_cons_self, hunfit⟩, e, by rw [writeAll, hwrite]⟩
    have hall : writeAll source ((name, v) :: members) c =
        writeAll source members (c.assign key w source) := by rw [writeAll, hwrite]
    rw [hall]
    obtain ⟨⟨m, hm, hunfit⟩, herror⟩ | ⟨hfit, c', hok, hsays⟩ := ih (c.assign key w source)
    · exact .inl ⟨⟨m, List.mem_cons_of_mem _ hm, hunfit⟩, herror⟩
    refine .inr ⟨?_, c', hok, fun other => ?_⟩
    · rintro m (_ | ⟨_, hm⟩)
      · exact fun hunfit => by simp [hunfit.ofJson?_eq_none hname] at hvalue
      · exact hfit m hm
    -- a later member of the same name has the last word, otherwise this one has
    generalize hentry : c'.entry other = entry
    have hother := hsays other
    rw [hentry] at hother
    cases hother with
    | member hmember hvalue => exact .member (List.mem_cons_of_mem _ hmember) hvalue
    | absent habsent =>
      by_cases heq : other = key
      · subst heq
        rw [entry_assign_self]
        exact .member (by rw [hname]; exact List.mem_cons_self) hvalue
      · rw [entry_assign_of_ne heq]
        refine .absent ?_
        rw [List.map_cons, List.mem_cons, not_or]
        exact ⟨fun htext => heq (SettingKey.text_injective (htext.trans hname)), habsent⟩

/-! ### Overriding -/

def spoken? (r : EnvironmentReader) (key : SettingKey) : Option key.Value :=
  (r.text? key.text).bind key.ofText?

theorem text?_eq_some_iff {text : String} : r.text? key.text = some text ↔
    r.enabled = true ∧ r.env.get? (Environment.varName key.text) = some text ∧ text ≠ "" := by
  rw [EnvironmentReader.text?, EnvironmentReader.get?, Environment.nonempty?]
  split
  · next henabled => simp [Option.filter_eq_some_iff, henabled]
  · next hdisabled => simp [hdisabled]

theorem spoken?_eq_some_iff {v : key.Value} :
    spoken? r key = some v ↔ ∃ text, r.Speaks key text ∧ key.ofText? text = some v := by
  rw [spoken?, Option.bind_eq_some_iff]
  refine exists_congr fun text => and_congr_left fun hvalue => ?_
  rw [text?_eq_some_iff]
  constructor
  · exact fun ⟨henabled, hset, hnonempty⟩ => ⟨henabled, hset, hnonempty, fun _ => by simp [hvalue]⟩
  · exact fun h => ⟨h.enabled, h.set, h.nonempty⟩

theorem not_speaks_of_spoken?_eq_none (h : spoken? r key = none) (text : String) :
    ¬r.Speaks key text := by
  intro hspeaks
  have hunderstood : (key.ofText? text).isSome = true :=
    (key.ofText?_isSome text).elim id hspeaks.understood
  obtain ⟨v, hv⟩ := Option.isSome_iff_exists.mp hunderstood
  rw [spoken?_eq_some_iff.mpr ⟨text, hspeaks, hv⟩] at h
  nomatch h

/-- What a setting has after the environment was asked about it. -/
def overlay (r : EnvironmentReader) (key : SettingKey) (entry : key.Value × Option ConfigSource) :
    key.Value × Option ConfigSource :=
  match spoken? r key with
  | some v => (v, some (.environment (Environment.varName key.text)))
  | none => entry

theorem overlay_overlay (entry : key.Value × Option ConfigSource) :
    overlay r key (overlay r key entry) = overlay r key entry := by
  unfold overlay
  split <;> rfl

theorem entry_overrideOne (c : Config) (key other : SettingKey) :
    (overrideOne r c key).entry other =
      if other = key then overlay r other (c.entry other) else c.entry other := by
  have hassign : overrideOne r c key = match spoken? r key with
      | some v => c.assign key v (.environment (Environment.varName key.text))
      | none => c := by
    unfold overrideOne spoken?
    cases r.text? key.text with
    | none => rfl
    | some text =>
      rw [Option.bind_some, Option.bind_some, Settings.override?_eq]
      cases key.ofText? text <;> rfl
  rw [hassign]
  by_cases heq : other = key
  · subst heq
    rw [if_pos rfl, overlay]
    split
    · exact entry_assign_self ..
    · rfl
  · rw [if_neg heq]
    split
    · exact entry_assign_of_ne heq ..
    · rfl

theorem entry_foldl_overrideOne (keys : List SettingKey) (c : Config) (key : SettingKey) :
    (keys.foldl (overrideOne r) c).entry key =
      if key ∈ keys then overlay r key (c.entry key) else c.entry key := by
  induction keys generalizing c with
  | nil => rfl
  | cons first keys ih =>
    rw [List.foldl_cons, ih, entry_overrideOne]
    by_cases hfirst : key = first
    · simp [hfirst, overlay_overlay]
    · simp [hfirst]

/-! ### All layers -/

theorem entry_defaults (key : SettingKey) :
    defaults.entry key = (({} : Settings).value key, some .default) := by
  cases key <;> rfl

theorem readFile_cases (path : String) (content : FileContent) :
    (content.object? = none ∧ ∃ e, readFile path content = .error e) ∨
      ∃ members, content.object? = some members ∧ (members.map Prod.fst).Nodup ∧
        readFile path content = .ok members := by
  cases content with
  | missing => exact .inr ⟨[], rfl, List.nodup_nil, rfl⟩
  | unreadable reason => exact .inl ⟨rfl, _, rfl⟩
  | text s =>
    cases hread : Json.readMembers s with
    | ok members =>
      have hobject := Json.readMembers_eq_ok_iff.mp hread
      refine .inr ⟨members, ?_, Json.nodup_keys_of_read hobject, ?_⟩
      · rw [FileContent.object?, hobject]
      · rw [readFile, hread]
        rfl
    | error e =>
      refine .inl ⟨?_, .malformed path e, ?_⟩
      · rw [FileContent.object?]
        split
        · next members hobject =>
          rw [Json.readMembers_eq_ok_iff.mpr hobject] at hread
          cases hread
        · rfl
      · rw [readFile, hread]
        rfl

/-- The layer that a setting has its value and its source from. -/
inductive FromLayer (r : EnvironmentReader) (path : String) (members : List (String × Json))
    (key : SettingKey) : key.Value × Option ConfigSource → Prop
  | environment {text : String} {v : key.Value} (hspeaks : r.Speaks key text)
    (hvalue : key.ofText? text = some v) :
    FromLayer r path members key (v, some (.environment (Environment.varName key.text)))
  | file {v : Json} {w : key.Value} (hsilent : ∀ text, ¬r.Speaks key text)
    (hmember : (key.text, v) ∈ members) (hvalue : key.ofJson? v = some w) :
    FromLayer r path members key (w, some (.file path))
  | default (hsilent : ∀ text, ¬r.Speaks key text) (habsent : key.text ∉ members.map Prod.fst) :
    FromLayer r path members key (({} : Settings).value key, some .default)

theorem build_cases (r : EnvironmentReader) (path : String) (content : FileContent) :
    (content.object? = none ∧ ∃ e, build r path content = .error e) ∨
      ∃ members, content.object? = some members ∧ (members.map Prod.fst).Nodup ∧
        (((∃ m ∈ members, Unfit m.1 m.2) ∧ ∃ e, build r path content = .error e) ∨
          (∀ m ∈ members, ¬Unfit m.1 m.2) ∧ ∃ c, build r path content = .ok c ∧
            ∀ key, FromLayer r path members key (c.entry key)) := by
  obtain ⟨hobject, e, hread⟩ | ⟨members, hobject, hnodup, hread⟩ := readFile_cases path content
  · exact .inl ⟨hobject, e, by rw [build, hread]; rfl⟩
  refine .inr ⟨members, hobject, hnodup, ?_⟩
  have hbuild : build r path content =
      (writeAll (.file path) members defaults).map
        fun c => SettingKey.all.foldl (overrideOne r) c := by
    rw [build, hread]
    rfl
  rw [hbuild]
  obtain ⟨hunfit, e, herror⟩ | ⟨hfit, c, hok, hsays⟩ := writeAll_cases (.file path) members defaults
  · exact .inl ⟨hunfit, e, by rw [herror]; rfl⟩
  refine .inr ⟨hfit, _, by rw [hok]; rfl, fun key => ?_⟩
  rw [entry_foldl_overrideOne, if_pos key.mem_all, overlay]
  split
  · next v hv =>
    obtain ⟨text, hspeaks, hvalue⟩ := spoken?_eq_some_iff.mp hv
    exact .environment hspeaks hvalue
  · next hnone =>
    have hsilent := not_speaks_of_spoken?_eq_none hnone
    generalize hentry : c.entry key = entry
    have hkey := hsays key
    rw [hentry] at hkey
    cases hkey with
    | member hmember hvalue => exact .file hsilent hmember hvalue
    | absent habsent =>
      rw [entry_defaults]
      exact .default hsilent habsent

/-! ### Setting -/

/-- What the caller is left with after trying to set a value. -/
def afterSet (c : Config) (call : String × Json) : Config :=
  match c.set call.1 call.2 with
  | .ok c' => c'
  | .error _ => c

def given? (key : SettingKey) (call : String × Json) : Option key.Value :=
  if call.1 = key.text then key.ofJson? call.2 else none

theorem entry_afterSet (c : Config) (call : String × Json) (key : SettingKey) :
    (c.afterSet call).entry key =
      ((given? key call).map fun v => (v, some .command)).getD (c.entry key) := by
  obtain ⟨name, v⟩ := call
  obtain ⟨hunfit, e, hwrite⟩ | ⟨other, w, hname, hvalue, hwrite⟩ := write_cases c name v .command
  · have hgiven : given? key (name, v) = none := by
      unfold given?
      split
      · next heq => exact hunfit.ofJson?_eq_none heq
      · rfl
    simp only [afterSet, set, hwrite, hgiven]
    rfl
  · simp only [afterSet, set, hwrite]
    by_cases heq : key = other
    · subst heq
      simp [given?, hname, hvalue]
    · have hne : name ≠ key.text := fun h => heq (SettingKey.text_injective (h.symm.trans hname))
      rw [entry_assign_of_ne heq, given?, if_neg hne]
      rfl

/-- The last accepted value of each setting stands, and nothing that was said about others. -/
theorem entry_after_sets (calls : List (String × Json)) (c : Config) (key : SettingKey) :
    (calls.foldl afterSet c).entry key =
      ((calls.reverse.findSome? (given? key)).map fun v => (v, some .command)).getD
        (c.entry key) := by
  induction calls generalizing c with
  | nil => rfl
  | cons call calls ih =>
    rw [List.foldl_cons, ih, entry_afterSet, List.reverse_cons, List.findSome?_append]
    cases calls.reverse.findSome? (given? key) <;> cases hcall : given? key call <;>
      simp [hcall]

/-- Each setting has its value and its source from one layer, whatever the layers say about other
settings. Building fails just for a file that holds no object or an unfit member, and setting a
value just for an unfit one; it changes this setting only. -/
theorem layers_never_mix (r : EnvironmentReader) (path : String) (content : FileContent) :
    ((∃ e, build r path content = .error e) ↔ content.object? = none ∨
      ∃ members, content.object? = some members ∧ ∃ m ∈ members, Unfit m.1 m.2) ∧
    (∀ c, build r path content = .ok c → ∃ members, content.object? = some members ∧
      (members.map Prod.fst).Nodup ∧ ∀ key, FromLayer r path members key (c.entry key)) ∧
    ∀ (c : Config) (name : String) (v : Json),
      (Unfit name v ∧ (∃ e, c.set name v = .error e) ∧ c.afterSet (name, v) = c) ∨
      ∃ (key : SettingKey) (w : key.Value) (c' : Config), name = key.text ∧
        key.ofJson? v = some w ∧ c.set name v = .ok c' ∧ c'.entry key = (w, some .command) ∧
        ∀ other, other ≠ key → c'.entry other = c.entry other := by
  refine ⟨?_, ?_, ?_⟩
  · obtain ⟨hobject, herror⟩ | ⟨members, hobject, -, ⟨hunfit, herror⟩ | ⟨hfit, c, hok, -⟩⟩ :=
      build_cases r path content
    · exact ⟨fun _ => .inl hobject, fun _ => herror⟩
    · exact ⟨fun _ => .inr ⟨members, hobject, hunfit⟩, fun _ => herror⟩
    · constructor
      · rintro ⟨e, herror⟩
        rw [hok] at herror
        nomatch herror
      · rintro (hnone | ⟨members', hobject', m, hm, hunfit⟩)
        · rw [hobject] at hnone
          nomatch hnone
        · rw [hobject] at hobject'
          cases hobject'
          exact absurd hunfit (hfit m hm)
  · intro c hc
    obtain ⟨-, e, herror⟩ | ⟨members, hobject, hnodup, ⟨-, e, herror⟩ | ⟨-, c', hok, hentry⟩⟩ :=
      build_cases r path content
    · rw [herror] at hc
      nomatch hc
    · rw [herror] at hc
      nomatch hc
    · rw [hok] at hc
      cases hc
      exact ⟨members, hobject, hnodup, hentry⟩
  · intro c name v
    obtain ⟨hunfit, e, hwrite⟩ | ⟨key, w, hname, hvalue, hwrite⟩ := write_cases c name v .command
    · exact .inl ⟨hunfit, ⟨e, hwrite⟩, by simp only [afterSet, set, hwrite]⟩
    · exact .inr ⟨key, w, _, hname, hvalue, hwrite, entry_assign_self .., fun other hne =>
        entry_assign_of_ne hne ..⟩

section Sample

/-- Of three variables one names no cache level, and one is empty. -/
def sampleReader : EnvironmentReader where
  enabled := true
  env := [("RPMSOLVE_CACHE_ONLY", "sometimes"), ("RPMSOLVE_ARCH", ""),
    ("RPMSOLVE_MAX_SOLVER_STEPS", "12")]

def sampleContent : FileContent :=
  .text "\x7b\"best\": true, \"cache-only\": true, \"max-solver-steps\": 7\x7d"

theorem layers_of_sample : ∃ c, build sampleReader "rpmsolve.json" sampleContent = .ok c ∧
    c.settings = { best := true, cacheOnly := .all, maxSolverSteps := 12 } ∧
    c.source? .best = some (.file "rpmsolve.json") ∧
    c.source? .cacheOnly = some (.file "rpmsolve.json") ∧
    c.source? .arch = some .default ∧
    c.source? .maxSolverSteps = some (.environment "RPMSOLVE_MAX_SOLVER_STEPS") ∧
    ∃ members, sampleContent.object? = some members ∧ (members.map Prod.fst).Nodup ∧
      ∀ key, FromLayer sampleReader "rpmsolve.json" members key (c.entry key) := by
  have hbuilt : (build sampleReader "rpmsolve.json" sampleContent).toOption.map (fun c =>
      (c.settings, c.source? .best, c.source? .cacheOnly, c.source? .arch,
        c.source? .maxSolverSteps)) =
      some ({ best := true, cacheOnly := .all, maxSolverSteps := 12 },
        some (.file "rpmsolve.json"), some (.file "rpmsolve.json"), some .default,
        some (.environment "RPMSOLVE_MAX_SOLVER_STEPS")) := by
    decide +kernel
  have hlayers := (layers_never_mix sampleReader "rpmsolve.json" sampleContent).2.1
  cases hbuild : build sampleReader "rpmsolve.json" sampleContent with
  | error e =>
    rw [hbuild] at hbuilt
    nomatch hbuilt
  | ok c =>
    rw [hbuild] at hbuilt
    injection hbuilt with hbuilt
    simp only [Prod.mk.injEq] at hbuilt
    obtain ⟨hsettings, hbest, hcache, harch, hsteps⟩ := hbuilt
    exact ⟨c, rfl, hsettings, hbest, hcache, harch, hsteps, hlayers c hbuild⟩

end Sample

end Config

end Depsolve
