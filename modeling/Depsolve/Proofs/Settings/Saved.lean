import Depsolve.Proofs.Json.RoundTrip
import Depsolve.Proofs.Settings.Layers
/-!
# Saved settings

Settings are saved as one object, and a configuration is built from a file member by member. Each
setting has a saved value that is read as this setting, or it is left out where it is the default,
so nothing gets lost in between.
-/
namespace Depsolve

-- `2 ^ n` is the power of natural numbers itself, as it is for the reader
attribute [local instance (high)] instPowNat

namespace Settings

variable {s : Settings} {key : SettingKey} {v : Json}

def savedList (l : List String) : Json := .array (l.map .string)

/-- What is saved of one setting. -/
def saved? (s : Settings) : SettingKey → Option Json
  | .best => some (.bool s.best)
  | .allowErasing => some (.bool s.allowErasing)
  | .cleanRequirementsOnRemove => some (.bool s.cleanRequirementsOnRemove)
  | .allowDowngrade => some (.bool s.allowDowngrade)
  | .cacheOnly => some (.string s.cacheOnly.text)
  | .installonlyPkgs => some (savedList s.installonlyPkgs)
  | .protectedPackages => some (savedList s.protectedPackages)
  | .excludes => some (savedList s.excludes)
  | .arch => s.arch.map .string
  | .maxSolverSteps => some (.int s.maxSolverSteps)

def savedMembers (s : Settings) : List (String × Json) :=
  SettingKey.all.filterMap fun key => (s.saved? key).map fun v => (key.text, v)

theorem toJson_eq (s : Settings) : s.toJson = .object s.savedMembers := by
  unfold toJson savedMembers
  cases harch : s.arch <;> simp [SettingKey.all, saved?, harch, savedList, SettingKey.text]

theorem mem_savedMembers {m : String × Json} :
    m ∈ s.savedMembers ↔ ∃ key v, s.saved? key = some v ∧ m = (key.text, v) := by
  simp only [savedMembers, List.mem_filterMap, SettingKey.mem_all, true_and, Option.map_eq_some_iff]
  constructor
  · rintro ⟨key, v, hsaved, rfl⟩
    exact ⟨key, v, hsaved, rfl⟩
  · rintro ⟨key, v, hsaved, rfl⟩
    exact ⟨key, v, hsaved, rfl⟩

theorem nodup_savedMembers (s : Settings) : (s.savedMembers.map Prod.fst).Nodup := by
  have hkeys : (SettingKey.all.map SettingKey.text).Nodup := by decide
  refine hkeys.sublist ?_
  have hmap : s.savedMembers.map Prod.fst =
      (SettingKey.all.filter fun key => (s.saved? key).isSome).map SettingKey.text := by
    unfold savedMembers
    induction SettingKey.all with
    | nil => rfl
    | cons key keys ih => cases h : s.saved? key <;> simp [h, ih]
  rw [hmap]
  exact List.filter_sublist.map _

/-! ### The values of the settings -/

theorem strings?_map_string (l : List String) : strings? (l.map .string) = some l := by
  induction l with
  | nil => rfl
  | cons s l ih => simp [strings?, Json.string?, ih]

theorem parse?_cacheLevel_text (level : CacheLevel) :
    CacheLevel.parse? level.text = some level := by
  cases level <;> decide +kernel

theorem ofJson?_saved (h : s.saved? key = some v) : key.ofJson? v = some (s.value key) := by
  cases key with
  | cacheOnly =>
    cases h
    exact parse?_cacheLevel_text s.cacheOnly
  | installonlyPkgs =>
    cases h
    exact strings?_map_string s.installonlyPkgs
  | protectedPackages =>
    cases h
    exact strings?_map_string s.protectedPackages
  | excludes =>
    cases h
    exact strings?_map_string s.excludes
  | arch =>
    obtain ⟨a, harch, rfl⟩ := Option.map_eq_some_iff.mp h
    exact congrArg some harch.symm
  | _ =>
    cases h
    rfl

theorem value_of_not_saved (h : s.saved? key = none) : s.value key = ({} : Settings).value key := by
  cases key with
  | arch => exact Option.map_eq_none_iff.mp h
  | _ => nomatch h

theorem plain_saved (hsteps : s.maxSolverSteps < 2 ^ (64 : Nat)) (h : s.saved? key = some v) :
    Json.Plain 1 v := by
  have hlist (l : List String) : Json.Plain 1 (savedList l) := by
    refine .array fun v hv => ?_
    obtain ⟨t, -, rfl⟩ := List.mem_map.mp hv
    exact .string 0 t
  cases key with
  | cacheOnly =>
    cases h
    exact .string 1 _
  | installonlyPkgs =>
    cases h
    exact hlist _
  | protectedPackages =>
    cases h
    exact hlist _
  | excludes =>
    cases h
    exact hlist _
  | arch =>
    obtain ⟨a, -, rfl⟩ := Option.map_eq_some_iff.mp h
    exact .string 1 a
  | maxSolverSteps =>
    cases h
    exact .int 1 hsteps
  | _ =>
    cases h
    exact .bool 1 _

theorem plain_toJson (hsteps : s.maxSolverSteps < 2 ^ (64 : Nat)) : Json.Plain 2 s.toJson := by
  rw [toJson_eq]
  refine .object (nodup_savedMembers s) fun m hm => ?_
  obtain ⟨key, v, hsaved, rfl⟩ := mem_savedMembers.mp hm
  exact plain_saved hsteps hsaved

theorem read_saved (hsteps : s.maxSolverSteps < 2 ^ (64 : Nat)) :
    Json.read s.toJson.text = .ok s.toJson :=
  Json.read_text (plain_toJson hsteps) (by decide)

end Settings

namespace Config

variable {s : Settings}

theorem build_of_read_saved (env : Environment) (path : String) {text : String}
    (h : Json.read text = .ok s.toJson) :
    ∃ c, build ⟨false, env⟩ path (.text text) = .ok c ∧ c.settings = s := by
  have hobject : (FileContent.text text).object? = some s.savedMembers := by
    rw [FileContent.object?, h, Settings.toJson_eq]
  obtain ⟨hnone, -⟩ | ⟨members, hmembers, -, hbuild⟩ := build_cases ⟨false, env⟩ path (.text text)
  · rw [hobject] at hnone
    cases hnone
  rw [hobject] at hmembers
  cases hmembers
  obtain ⟨⟨m, hm, hunfit⟩, -⟩ | ⟨-, c, hok, hlayers⟩ := hbuild
  · obtain ⟨key, v, hsaved, rfl⟩ := Settings.mem_savedMembers.mp hm
    have hnone := hunfit.ofJson?_eq_none rfl
    rw [Settings.ofJson?_saved hsaved] at hnone
    cases hnone
  refine ⟨c, hok, Settings.eq_of_value_eq fun key => ?_⟩
  have hlayer := hlayers key
  show (c.entry key).1 = s.value key
  generalize c.entry key = entry at hlayer
  cases hlayer with
  | environment hspeaks => exact absurd hspeaks.enabled Bool.false_ne_true
  | file _ hmember hvalue =>
    obtain ⟨other, v, hsaved, heq⟩ := Settings.mem_savedMembers.mp hmember
    obtain ⟨hname, rfl⟩ := Prod.mk.inj heq
    obtain rfl := SettingKey.text_injective hname
    rw [Settings.ofJson?_saved hsaved] at hvalue
    exact (Option.some.inj hvalue).symm
  | default _ habsent =>
    cases hsaved : s.saved? key with
    | none => exact (Settings.value_of_not_saved hsaved).symm
    | some v =>
      exact absurd (List.mem_map_of_mem (Settings.mem_savedMembers.mpr ⟨key, v, hsaved, rfl⟩))
        habsent

/-- Settings that were saved, by this program or in any other text of the same object, are loaded
as they were. -/
theorem saved_loads_back (s : Settings) (hsteps : s.maxSolverSteps < 2 ^ (64 : Nat))
    (env : Environment) (path : String) :
    (∃ c, build ⟨false, env⟩ path (.text s.toJson.text) = .ok c ∧ c.settings = s) ∧
    ∀ text, Json.read text = .ok s.toJson →
      ∃ c, build ⟨false, env⟩ path (.text text) = .ok c ∧ c.settings = s :=
  ⟨build_of_read_saved env path (Settings.read_saved hsteps),
    fun _ h => build_of_read_saved env path h⟩

section Sample

/-- Without an architecture and with an empty list, with items that a list in one string could not
hold, and with the largest limit. -/
def sampleSettings : Settings where
  cacheOnly := .metadata
  installonlyPkgs := []
  protectedPackages := ["a, b", " c ", "", "\"\\\n\u0001é"]
  maxSolverSteps := 2 ^ (64 : Nat) - 1

theorem sampleSettings_load_back :
    sampleSettings.maxSolverSteps < 2 ^ (64 : Nat) ∧
      (∃ c, build ⟨false, [("RPMSOLVE_BEST", "on")]⟩ "rpmsolve.json"
        (.text sampleSettings.toJson.text) = .ok c ∧ c.settings = sampleSettings) ∧
      ∀ text, Json.read text = .ok sampleSettings.toJson →
        ∃ c, build ⟨false, [("RPMSOLVE_BEST", "on")]⟩ "rpmsolve.json" (.text text) = .ok c ∧
          c.settings = sampleSettings :=
  have hsteps : sampleSettings.maxSolverSteps < 2 ^ (64 : Nat) := by decide
  ⟨hsteps, saved_loads_back sampleSettings hsteps _ _⟩

end Sample

end Config

end Depsolve
