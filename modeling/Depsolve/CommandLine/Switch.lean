/-!
# Switches of a command line

A command describes its switches by a table. A switch is written with its long
name, or with a letter behind one dash; letters may be run together, and one that
takes a value takes the rest of its argument. Two dashes alone end the switches.
-/
namespace Depsolve.CommandLine

inductive Stop where
  | misuse
  | help
  | version
deriving DecidableEq

/-- What a switch does to the options of its command. -/
inductive Effect (σ : Type) where
  | stop (s : Stop)
  | flag (set : σ → σ)
  /-- The value may be refused. -/
  | value (set : String → σ → Option σ)

structure Switch (σ : Type) where
  name : String
  letter : Option Char := none
  /-- Whether it may be given more than once. -/
  repeatable : Bool := false
  effect : Effect σ

/-- The options so far, and the switches that were given. -/
structure Reading (σ : Type) where
  options : σ
  given : List String := []

variable {σ : Type}

namespace Switch

def takesValue (w : Switch σ) : Bool :=
  match w.effect with
  | .value _ => true
  | _ => false

def use (w : Switch σ) (value : Option String) (r : Reading σ) : Except Stop (Reading σ) :=
  if r.given.contains w.name && !w.repeatable then .error .misuse
  else
    let given := w.name :: r.given
    match w.effect, value with
    | .stop s, none => .error s
    | .flag set, none => .ok { options := set r.options, given }
    | .value set, some v =>
      match set v r.options with
      | some options => .ok { options, given }
      | none => .error .misuse
    | _, _ => .error .misuse

end Switch

structure Table (σ : Type) where
  switches : List (Switch σ)
  positional : String → σ → Option σ := fun _ _ => none

/-- A value cannot look like a switch. A dash alone does not. -/
def isSwitch (arg : String) : Bool := arg.startsWith "-" && arg != "-"

namespace Table

variable (t : Table σ)

def byName? (name : String) : Option (Switch σ) := t.switches.find? (·.name == name)

def byLetter? (c : Char) : Option (Switch σ) := t.switches.find? (·.letter == some c)

/-- Letters behind one dash, and the switch that waits for the next argument as its value. -/
def readLetters : List Char → Reading σ → Except Stop (Option (Switch σ) × Reading σ)
  | [], r => .ok (none, r)
  | c :: cs, r =>
    match t.byLetter? c with
    | none => .error .misuse
    | some w =>
      if w.takesValue then
        match cs with
        | [] => .ok (some w, r)
        | '=' :: value | value => (w.use (some (String.ofList value)) r).map fun r => (none, r)
      else
        match w.use none r with
        | .error s => .error s
        | .ok r => readLetters cs r

/-- A long name, perhaps with its value behind an equals sign. -/
def readLong (body : List Char) (r : Reading σ) : Except Stop (Option (Switch σ) × Reading σ) :=
  match t.byName? (String.ofList (body.takeWhile (· != '='))) with
  | none => .error .misuse
  | some w =>
    match body.dropWhile (· != '=') with
    | _ :: value => (w.use (some (String.ofList value)) r).map fun r => (none, r)
    | [] => if w.takesValue then .ok (some w, r) else (w.use none r).map fun r => (none, r)

def readSwitch (arg : String) (r : Reading σ) : Except Stop (Option (Switch σ) × Reading σ) :=
  match arg.toList with
  | '-' :: '-' :: body => t.readLong body r
  | _ :: letters => t.readLetters letters r
  | [] => .error .misuse

def readPositional (arg : String) (r : Reading σ) : Except Stop (Reading σ) :=
  match t.positional arg r.options with
  | some options => .ok { r with options }
  | none => .error .misuse

/-- Read all arguments, the first perhaps being the value of a switch. -/
def readFrom : Option (Switch σ) → List String → Reading σ → Except Stop σ
  | none, [], r => .ok r.options
  | some _, [], _ => .error .misuse
  | some w, arg :: rest, r =>
    if isSwitch arg then .error .misuse
    else
      match w.use (some arg) r with
      | .error s => .error s
      | .ok r => readFrom none rest r
  | none, arg :: rest, r =>
    if arg == "--" then (rest.foldlM (fun r arg => t.readPositional arg r) r).map Reading.options
    else if isSwitch arg then
      match t.readSwitch arg r with
      | .error s => .error s
      | .ok (waiting, r) => readFrom waiting rest r
    else
      match t.readPositional arg r with
      | .error s => .error s
      | .ok r => readFrom none rest r

def read (args : List String) (options : σ) : Except Stop σ :=
  t.readFrom none args { options }

end Table

end Depsolve.CommandLine
