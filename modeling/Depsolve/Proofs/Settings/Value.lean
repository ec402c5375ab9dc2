import Depsolve.Settings
/-!
# The value of each setting

Each setting has a type of values, a place in the settings, and two ways of being read. Writing
a setting, from a file or from a variable, is reading a value of its type and putting it into its
place, and a place holds what was put there last.
-/
namespace Depsolve

namespace SettingKey

def Value : SettingKey → Type
  | .best | .allowErasing | .cleanRequirementsOnRemove | .allowDowngrade => Bool
  | .cacheOnly => CacheLevel
  | .installonlyPkgs | .protectedPackages | .excludes => List String
  | .arch => Option String
  | .maxSolverSteps => Nat

/-- The value that a JSON value stands for, unless it is of the wrong kind for the setting. -/
def ofJson? : (key : SettingKey) → Json → Option key.Value
  | .best, v | .allowErasing, v | .cleanRequirementsOnRemove, v | .allowDowngrade, v => v.bool?
  | .cacheOnly, v => Settings.cacheLevel? v
  | .installonlyPkgs, v | .protectedPackages, v | .excludes, v => Settings.stringList? v
  | .arch, v => Settings.arch? v
  | .maxSolverSteps, v => v.word?

def Takes : (key : SettingKey) → Json → Prop
  | .best, v | .allowErasing, v | .cleanRequirementsOnRemove, v | .allowDowngrade, v =>
    ∃ b, v = .bool b
  | .cacheOnly, v => (∃ b, v = .bool b) ∨
    ∃ name level, v = .string name ∧ CacheLevel.parse? name = some level
  | .installonlyPkgs, v | .protectedPackages, v | .excludes, v =>
    (∃ items, v = .string items) ∨ ∃ items : List String, v = .array (items.map .string)
  | .arch, v => v = .null ∨ ∃ arch, v = .string arch
  | .maxSolverSteps, v => ∃ n : Nat, v = .int n

/-- The value that the text of a variable stands for, if it is understood. -/
def ofText? : (key : SettingKey) → String → Option key.Value
  | .best, text | .allowErasing, text | .cleanRequirementsOnRemove, text | .allowDowngrade, text =>
    some (Settings.switchOf text)
  | .cacheOnly, text => CacheLevel.parse? text
  | .installonlyPkgs, text | .protectedPackages, text | .excludes, text => some (wordFields text)
  | .arch, text => some (some text)
  | .maxSolverSteps, text => readWord? text.toList

section Kinds

variable {v : Json}

theorem strings?_eq_some_iff {items : List Json} {strings : List String} :
    Settings.strings? items = some strings ↔ items = strings.map .string := by
  induction items generalizing strings with
  | nil => cases strings <;> simp [Settings.strings?]
  | cons v items ih =>
    constructor
    · intro h
      rw [Settings.strings?] at h
      split at h
      · next s rest hs hrest =>
        cases v <;> cases hs
        cases h
        rw [List.map_cons, ih.mp hrest]
      · cases h
    · intro h
      cases strings with
      | nil => cases h
      | cons s rest =>
        obtain ⟨rfl, hrest⟩ := List.cons.inj h
        simp [Settings.strings?, Json.string?, ih.mpr hrest]

theorem bool?_isSome_iff : v.bool?.isSome = true ↔ ∃ b, v = .bool b := by
  cases v <;> simp [Json.bool?]

theorem word?_isSome_iff : v.word?.isSome = true ↔ ∃ n : Nat, v = .int n := by
  cases v with
  | int n =>
    cases n with
    | ofNat n => exact iff_of_true rfl ⟨n, rfl⟩
    | negSucc n => simp [Json.word?]
  | _ => simp [Json.word?]

theorem cacheLevel?_isSome_iff : (Settings.cacheLevel? v).isSome = true ↔ (∃ b, v = .bool b) ∨
    ∃ name level, v = .string name ∧ CacheLevel.parse? name = some level := by
  cases v with
  | bool b => cases b <;> simp [Settings.cacheLevel?]
  | string name => simp [Settings.cacheLevel?, Option.isSome_iff_exists]
  | _ => simp [Settings.cacheLevel?]

theorem stringList?_isSome_iff : (Settings.stringList? v).isSome = true ↔
    (∃ items, v = .string items) ∨ ∃ items : List String, v = .array (items.map .string) := by
  cases v <;> simp [Settings.stringList?, Option.isSome_iff_exists, strings?_eq_some_iff]

theorem arch?_isSome_iff :
    (Settings.arch? v).isSome = true ↔ v = .null ∨ ∃ arch, v = .string arch := by
  cases v <;> simp [Settings.arch?]

theorem ofJson?_isSome_iff {key : SettingKey} : (key.ofJson? v).isSome = true ↔ key.Takes v := by
  cases key with
  | best | allowErasing | cleanRequirementsOnRemove | allowDowngrade => exact bool?_isSome_iff
  | cacheOnly => exact cacheLevel?_isSome_iff
  | installonlyPkgs | protectedPackages | excludes => exact stringList?_isSome_iff
  | arch => exact arch?_isSome_iff
  | maxSolverSteps => exact word?_isSome_iff

end Kinds

/-- Only a cache level and a number of steps can be misspelt in a variable. -/
theorem ofText?_isSome (key : SettingKey) (text : String) :
    (key.ofText? text).isSome = true ∨ key = .cacheOnly ∨ key = .maxSolverSteps := by
  cases key with
  | cacheOnly => exact .inr (.inl rfl)
  | maxSolverSteps => exact .inr (.inr rfl)
  | _ => exact .inl rfl

theorem mem_all (key : SettingKey) : key ∈ all := by
  cases key <;> decide

theorem text_injective {key other : SettingKey} (h : key.text = other.text) : key = other := by
  have hparse := parse?_text key
  rw [h, parse?_text] at hparse
  exact (Option.some.inj hparse).symm

theorem parse?_eq_some_iff {name : String} {key : SettingKey} :
    parse? name = some key ↔ name = key.text := by
  constructor
  · intro h
    rw [parse?, List.find?_eq_some_iff_append] at h
    exact (beq_iff_eq.mp h.1).symm
  · rintro rfl
    exact parse?_text key

end SettingKey

namespace Settings

variable {s t : Settings} {key other : SettingKey}

def value (s : Settings) : (key : SettingKey) → key.Value
  | .best => s.best
  | .allowErasing => s.allowErasing
  | .cleanRequirementsOnRemove => s.cleanRequirementsOnRemove
  | .allowDowngrade => s.allowDowngrade
  | .cacheOnly => s.cacheOnly
  | .installonlyPkgs => s.installonlyPkgs
  | .protectedPackages => s.protectedPackages
  | .excludes => s.excludes
  | .arch => s.arch
  | .maxSolverSteps => s.maxSolverSteps

def put (s : Settings) : (key : SettingKey) → key.Value → Settings
  | .best, v => { s with best := v }
  | .allowErasing, v => { s with allowErasing := v }
  | .cleanRequirementsOnRemove, v => { s with cleanRequirementsOnRemove := v }
  | .allowDowngrade, v => { s with allowDowngrade := v }
  | .cacheOnly, v => { s with cacheOnly := v }
  | .installonlyPkgs, v => { s with installonlyPkgs := v }
  | .protectedPackages, v => { s with protectedPackages := v }
  | .excludes, v => { s with excludes := v }
  | .arch, v => { s with arch := v }
  | .maxSolverSteps, v => { s with maxSolverSteps := v }

@[simp] theorem value_put_self (s : Settings) (v : key.Value) : (s.put key v).value key = v := by
  cases key <;> rfl

theorem value_put_of_ne (h : other ≠ key) (s : Settings) (v : key.Value) :
    (s.put key v).value other = s.value other := by
  cases key <;> cases other <;> first | rfl | exact absurd rfl h

theorem eq_of_value_eq (h : ∀ key, s.value key = t.value key) : s = t := by
  have hbest := h .best
  have hallowErasing := h .allowErasing
  have hclean := h .cleanRequirementsOnRemove
  have hallowDowngrade := h .allowDowngrade
  have hcacheOnly := h .cacheOnly
  have hinstallonly := h .installonlyPkgs
  have hprotected := h .protectedPackages
  have hexcludes := h .excludes
  have harch := h .arch
  have hsteps := h .maxSolverSteps
  cases s
  cases t
  simp only [value] at *
  simp only [*]

theorem write?_eq (s : Settings) (key : SettingKey) (v : Json) :
    s.write? key v = (key.ofJson? v).map (s.put key) := by
  cases key <;> rfl

theorem override?_eq (s : Settings) (key : SettingKey) (text : String) :
    s.override? key text = (key.ofText? text).map (s.put key) := by
  cases key <;> rfl

end Settings

end Depsolve
