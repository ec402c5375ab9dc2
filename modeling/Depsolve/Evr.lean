import Depsolve.Text.Blank
import Depsolve.Text.Numeral
import Depsolve.Version.Token
/-!
# Epoch, version and release

The identity of a build. Builds are ordered by epoch, then version, then release,
and a missing release sorts below any release. For matching a bound, the release
counts only where both sides have one.
-/
namespace Depsolve

structure Evr where
  epoch : UInt32
  version : String
  release : String
deriving DecidableEq, Inhabited

inductive EvrError where
  | invalidEpoch (text : String)
  | emptyVersion (text : String)
  | emptyName (text : String)
  | invalidComparator (text : String)
  | invalidDependency (expression : String)
deriving DecidableEq

def EvrError.message : EvrError → String
  | .invalidEpoch text => s!"Invalid epoch in \"{text}\""
  | .emptyVersion text => s!"Empty version in \"{text}\""
  | .emptyName text => s!"Empty name in \"{text}\""
  | .invalidComparator text => s!"Invalid comparator \"{text}\""
  | .invalidDependency expression =>
    s!"Could not parse dependency expression \"{expression}\": expected \"name [op version]\""

namespace Evr

def hasRelease (e : Evr) : Bool := !e.release.isEmpty

/-- Split off the epoch, everything before the first colon. No colon and nothing before
it both mean epoch zero. -/
def readEpoch? (cs : List Char) : Option (UInt32 × List Char) :=
  match cutFirst ':' cs with
  | none => some (0, cs)
  | some ([], rest) => some (0, rest)
  | some (digits, rest) => (readUInt32? digits).map fun epoch => (epoch, rest)

/-- Read `[epoch:]version[-release]`; the release is what follows the last dash. -/
def parse (s : String) : Except EvrError Evr :=
  let cs := trimChars s.toList
  match readEpoch? cs with
  | none => .error (.invalidEpoch (String.ofList cs))
  | some (epoch, rest) =>
    let (version, release) := (cutLast '-' rest).getD (rest, [])
    if version.isEmpty then .error (.emptyVersion (String.ofList cs))
    else .ok ⟨epoch, String.ofList version, String.ofList release⟩

/-- The epoch is written only when it is not zero. -/
def text (e : Evr) : String :=
  (if e.epoch = 0 then "" else s!"{e.epoch.toNat}:") ++ e.version ++
    (if e.hasRelease then s!"-{e.release}" else "")

def compareRelease (a b : Evr) : Ordering :=
  match a.hasRelease, b.hasRelease with
  | true, true => Version.compare a.release b.release
  | false, true => .lt
  | true, false => .gt
  | false, false => .eq

def compare (a b : Evr) : Ordering :=
  (Ord.compare a.epoch b.epoch).then
    ((Version.compare a.version b.version).then (compareRelease a b))

/-- The comparison with a bound: a release takes part only when both have one. -/
def compareForMatch (a b : Evr) : Ordering :=
  (Ord.compare a.epoch b.epoch).then
    ((Version.compare a.version b.version).then
      (if a.hasRelease && b.hasRelease then Version.compare a.release b.release else .eq))

/-- Two spellings of one build, such as `1.0-1` and `1.00-01`. -/
def same (a b : Evr) : Bool := a.compare b == .eq

def newer (a b : Evr) : Bool := a.compare b == .gt

def older (a b : Evr) : Bool := a.compare b == .lt

def wordBytes (n : UInt32) : List UInt8 :=
  [n.toUInt8, (n >>> 8).toUInt8, (n >>> 16).toUInt8, (n >>> 24).toUInt8]

/-- The byte encoding under which two spellings of one build agree. -/
def bytes (e : Evr) : List UInt8 :=
  wordBytes e.epoch ++ Version.bytes e.version ++ [if e.hasRelease then 1 else 0] ++
    Version.bytes e.release

end Evr

end Depsolve
