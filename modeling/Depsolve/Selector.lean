import Depsolve.Query
/-!
# Selectors

What one request is about. A selector comes from a pattern or is put together
from parts. It selects by name or by provided capability, never by both, and a
pattern that names no package is taken as a capability.
-/
namespace Depsolve

structure Selector where
  /-- A pattern, read as an identity from the most specific form down. -/
  pattern : Option String := none
  name : Option NameMatch := none
  /-- The name as it was written. -/
  nameText : Option String := none
  provides : Option Dependency := none
  evr : Option (Comparison × Evr) := none
  arch : Option String := none
  repo : Option String := none
  /-- The capability to look for when nothing has the name. -/
  fallback : Option Dependency := none
deriving DecidableEq

inductive SelectorFault where
  | emptyPattern
  | badDependency (cause : EvrError)
  | nameAndProvides
  | patternTaken
deriving DecidableEq

structure SelectorError where
  pattern : String
  fault : SelectorFault
deriving DecidableEq

def SelectorFault.message : SelectorFault → String
  | .emptyPattern => "empty pattern"
  | .badDependency cause => cause.message
  | .nameAndProvides => "a selector matches either by name or by provides"
  | .patternTaken => "selector already has a pattern"

def SelectorError.message (e : SelectorError) : String :=
  s!"Invalid package selector \"{e.pattern}\": {e.fault.message}"

namespace Selector

/-- Characters that make a pattern a dependency expression. -/
def isExpressionChar (c : Char) : Bool :=
  c == '<' || c == '>' || c == '=' || c == '!' || isBlank c

/-- Read `name`, `name.arch`, `name-[epoch:]version[-release][.arch]` or `name op version`. -/
def parse (pattern : String) : Except SelectorError Selector :=
  let text := trim pattern
  if text.isEmpty then .error ⟨pattern, .emptyPattern⟩
  else if text.toList.any isExpressionChar then
    match Dependency.parse text with
    | .error e => .error ⟨pattern, .badDependency e⟩
    | .ok d =>
      .ok {
        name := some (NameMatch.ofPattern d.name)
        nameText := some d.name
        evr := d.constraint
        fallback := if isGlob d.name then none else some d }
  else
    .ok { pattern := some text, fallback := if isGlob text then none else some { name := text } }

def checkNameSlot (s : Selector) (what : String) : Except SelectorError Unit :=
  if s.provides.isSome then .error ⟨what, .nameAndProvides⟩
  else if s.pattern.isSome then .error ⟨what, .patternTaken⟩
  else .ok ()

def withName (s : Selector) (name : String) : Except SelectorError Selector := do
  s.checkNameSlot name
  pure { s with name := some (.exact name), nameText := some name }

def withNameGlob (s : Selector) (pattern : String) : Except SelectorError Selector := do
  s.checkNameSlot pattern
  pure { s with name := some (NameMatch.ofPattern pattern), nameText := some pattern }

def withProvides (s : Selector) (d : Dependency) : Except SelectorError Selector :=
  if s.name.isSome || s.pattern.isSome then .error ⟨d.text, .nameAndProvides⟩
  else .ok { s with provides := some d }

def withEvr (s : Selector) (c : Comparison) (bound : Evr) : Selector :=
  { s with evr := some (c, bound) }

def withArch (s : Selector) (arch : String) : Selector := { s with arch := some arch }

def withRepo (s : Selector) (repo : String) : Selector := { s with repo := some repo }

/-- Whether anything can be selected at all. -/
def isSet (s : Selector) : Bool := s.pattern.isSome || s.name.isSome || s.provides.isSome

def nameHint (s : Selector) : Option String :=
  s.pattern <|> s.nameText <|> s.provides.map Dependency.name

def text (s : Selector) : String :=
  (match s.nameHint, s.evr with
    | some name, some (c, bound) => s!"{name} {c.text} {bound.text}"
    | some name, none => name
    | none, _ => "<empty selector>") ++
    (match s.arch with | some arch => s!" (arch {arch})" | none => "") ++
    (match s.repo with | some repo => s!" (repo {repo})" | none => "")

/-- The packages that the architecture, repository and version admit. -/
def base (s : Selector) (u : Universe) : Query :=
  let q := Query.considered u
  let q := match s.arch with | some arch => q.filter (.arch [arch]) | none => q
  let q := match s.repo with | some repo => q.filter (.repo [repo]) | none => q
  match s.evr with | some (c, bound) => q.filter (.evr c bound) | none => q

def firstNonempty? (qs : List Query) : Option Query := qs.find? fun q => !q.result.isEmpty

/-- The queries by name, the most specific reading first. -/
def namedQueries (s : Selector) (base : Query) : List Query :=
  match s.pattern, s.name with
  | some pattern, _ => (Nevra.readings pattern).map fun r => base.filter (.parts r.2)
  | none, some name => [base.filter (.name name)]
  | none, none => []

def query (s : Selector) (u : Universe) : Query :=
  let base := s.base u
  if s.pattern.isNone && s.name.isNone then
    match s.provides with
    | some d => base.filter (.provides d)
    | none => base.nothing
  else
    match firstNonempty? (s.namedQueries base) with
    | some q => q
    | none =>
      match s.fallback with
      | some d => base.filter (.provides d)
      | none => base.nothing

def resolve (s : Selector) (u : Universe) : PackageSet := (s.query u).result

end Selector

end Depsolve
