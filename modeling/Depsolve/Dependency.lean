import Depsolve.Evr
/-!
# Dependency expressions

A dependency is a capability name, possibly with a bound on the version, written
`name`, `bash >= 5.0` or `foo = 1:2.0-3`. Two dependencies overlap when some
version could satisfy both.
-/
namespace Depsolve

inductive Comparison where
  | eq
  | lt
  | le
  | gt
  | ge
deriving DecidableEq

namespace Comparison

def text : Comparison → String
  | .eq => "="
  | .lt => "<"
  | .le => "<="
  | .gt => ">"
  | .ge => ">="

/-- The written operators; some have two spellings. -/
def parse (s : String) : Except EvrError Comparison :=
  match s with
  | "=" | "==" => .ok .eq
  | "<" => .ok .lt
  | "<=" | "=<" => .ok .le
  | ">" => .ok .gt
  | ">=" | "=>" => .ok .ge
  | _ => .error (.invalidComparator s)

def hasLess : Comparison → Bool
  | .lt | .le => true
  | _ => false

def hasGreater : Comparison → Bool
  | .gt | .ge => true
  | _ => false

def hasEqual : Comparison → Bool
  | .eq | .le | .ge => true
  | _ => false

/-- Whether a version that compares as `ord` with the bound satisfies it. -/
def accepts (c : Comparison) : Ordering → Bool
  | .lt => c.hasLess
  | .eq => c.hasEqual
  | .gt => c.hasGreater

end Comparison

structure Dependency where
  name : String
  constraint : Option (Comparison × Evr) := none
deriving DecidableEq

namespace Dependency

def text (d : Dependency) : String :=
  match d.constraint with
  | none => d.name
  | some (c, bound) => s!"{d.name} {c.text} {bound.text}"

def matchesEvr (d : Dependency) (e : Evr) : Bool :=
  match d.constraint with
  | none => true
  | some (c, bound) => c.accepts (e.compareForMatch bound)

/-- Whether two ranges of versions have a common point. -/
def rangesMeet (a b : Comparison × Evr) : Bool :=
  match a.2.compareForMatch b.2 with
  | .lt => a.1.hasGreater || b.1.hasLess
  | .gt => a.1.hasLess || b.1.hasGreater
  | .eq =>
    a.1.hasEqual && b.1.hasEqual || a.1.hasLess && b.1.hasLess ||
      a.1.hasGreater && b.1.hasGreater

/-- Whether a provide of one side satisfies a requirement of the other. Names are equal,
and a side without a bound overlaps anything. -/
def overlaps (a b : Dependency) : Bool :=
  a.name == b.name &&
    match a.constraint, b.constraint with
    | some x, some y => rangesMeet x y
    | _, _ => true

def same (a b : Dependency) : Bool :=
  a.name == b.name &&
    match a.constraint, b.constraint with
    | some x, some y => x.1 == y.1 && x.2.same y.2
    | none, none => true
    | _, _ => false

def isNameChar (c : Char) : Bool :=
  !isBlank c && c != '<' && c != '>' && c != '=' && c != '!'

def isOperatorChar (c : Char) : Bool :=
  c == '<' || c == '>' || c == '=' || c == '!' || c == '~' || c == '^'

/-- Read `op version` up to the end: a maximal operator, blanks, one word that does not
begin like an operator, blanks. -/
def splitConstraint? (cs : List Char) : Option (List Char × List Char) :=
  let op := cs.takeWhile isOperatorChar
  let rest := (cs.dropWhile isOperatorChar).dropWhile isBlank
  let word := rest.takeWhile fun c => !isBlank c
  let after := rest.dropWhile fun c => !isBlank c
  match op, word with
  | _ :: _, c :: _ =>
    if !isOperatorChar c && after.all isBlank then some (op, word) else none
  | _, _ => none

/-- The operator to blame when a name is not followed by a constraint but some end of it
reads as one. The longest name before it wins; such an operator begins with a tilde or
caret, so it is never a valid one. -/
def strayOperator? (rest : List Char) : List Char → Option (List Char)
  | [] => none
  | c :: cs =>
    match strayOperator? rest cs with
    | some op => some op
    | none =>
      if isOperatorChar c then (splitConstraint? (c :: (cs ++ rest))).map Prod.fst else none

/-- Read `name` or `name op version`. -/
def parse (expression : String) : Except EvrError Dependency :=
  let cs := trimChars expression.toList
  let name := cs.takeWhile isNameChar
  let rest := cs.dropWhile isNameChar
  if cs.isEmpty then .error (.emptyName expression)
  else if name.isEmpty then .error (.invalidDependency expression)
  else if rest.isEmpty then .ok { name := String.ofList name }
  else
    match splitConstraint? (rest.dropWhile isBlank) with
    | some (op, word) => do
      let c ← Comparison.parse (String.ofList op)
      let bound ← Evr.parse (String.ofList word)
      pure { name := String.ofList name, constraint := some (c, bound) }
    | none =>
      match strayOperator? rest name.tail with
      | some op => .error (.invalidComparator (String.ofList op))
      | none => .error (.invalidDependency expression)

end Dependency

end Depsolve
