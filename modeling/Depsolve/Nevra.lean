import Depsolve.Evr
/-!
# Readings of a package pattern

A pattern such as `bash-5.1-1.x86_64` can be read as a full identity or as a
shorter form. Each form has at most one reading; the longest possible name wins.
-/
namespace Depsolve

inductive NevraForm where
  /-- `name-[epoch:]version-release.arch` -/
  | nevra
  /-- `name-[epoch:]version-release` -/
  | nevr
  /-- `name-[epoch:]version` -/
  | nev
  /-- `name.arch` -/
  | na
  /-- `name` -/
  | name
deriving DecidableEq

def NevraForm.all : List NevraForm := [.nevra, .nevr, .nev, .na, .name]

/-- A possibly partial identity. Absent parts match anything. -/
structure Nevra where
  name : String
  epoch : Option UInt32 := none
  version : Option String := none
  release : Option String := none
  arch : Option String := none
deriving DecidableEq

namespace Nevra

/-- The longest text before a dash such that it holds no colon and `tail?` accepts what
follows the dash. -/
def splitName? {β : Type} (tail? : List Char → Option β) : List Char → Option (List Char × β)
  | [] => none
  | c :: cs =>
    if c = ':' then none
    else
      match splitName? tail? cs with
      | some (name, b) => some (c :: name, b)
      | none => if c = '-' then (tail? cs).map fun b => ([], b) else none

/-- A text before the last dot and a text after it, neither of them empty. -/
def splitArch? (cs : List Char) : Option (List Char × List Char) :=
  match cutLast '.' cs with
  | some (c :: before, d :: arch) => some (c :: before, d :: arch)
  | _ => none

def splitEpoch (cs : List Char) : Option (List Char) × List Char :=
  match cs.takeWhile Char.isDigit, cs.dropWhile Char.isDigit with
  | [], _ => (none, cs)
  | digits, ':' :: rest => (some digits, rest)
  | _, _ => (none, cs)

/-- A version runs up to the next dash or colon. -/
def inVersion (c : Char) : Bool := c != '-' && c != ':'

/-- What the forms with a version have after the name. -/
structure Tail where
  epoch : Option (List Char)
  version : List Char
  release : Option (List Char) := none
  arch : Option (List Char) := none

def readVersion? (cs : List Char) : Option Tail :=
  let (epoch, rest) := splitEpoch cs
  if !rest.isEmpty && rest.all inVersion then some { epoch, version := rest } else none

/-- `[epoch:]version-release`, the release on one line. -/
def readRelease? (cs : List Char) : Option Tail :=
  let (epoch, rest) := splitEpoch cs
  match rest.takeWhile inVersion, rest.dropWhile inVersion with
  | c :: version, '-' :: d :: release =>
    if (d :: release).all (· != '\n') then
      some { epoch, version := c :: version, release := some (d :: release) }
    else none
  | _, _ => none

/-- `[epoch:]version-release.arch`; a line break may stand in the architecture only. -/
def readArch? (cs : List Char) : Option Tail :=
  match splitArch? cs with
  | none => none
  | some (front, arch) => (readRelease? front).map fun tail => { tail with arch := some arch }

/-- Put the parts together. An epoch that does not fit in 32 bits is no reading. -/
def ofTail? (name : List Char) (tail : Tail) : Option Nevra :=
  let build (epoch : Option UInt32) : Nevra :=
    { name := String.ofList name
      epoch
      version := some (String.ofList tail.version)
      release := tail.release.map String.ofList
      arch := tail.arch.map String.ofList }
  match tail.epoch with
  | none => some (build none)
  | some digits => (readUInt32? digits).map fun epoch => build (some epoch)

def readVersioned? (tail? : List Char → Option Tail) (cs : List Char) : Option Nevra :=
  match splitName? tail? cs with
  | some (c :: name, tail) => ofTail? (c :: name) tail
  | _ => none

def parse? (pattern : String) (form : NevraForm) : Option Nevra :=
  let cs := pattern.toList
  match form with
  | .nevra => readVersioned? readArch? cs
  | .nevr => readVersioned? readRelease? cs
  | .nev => readVersioned? readVersion? cs
  | .na =>
    match splitArch? cs with
    | some (name, arch) =>
      if name.all (· != ':') then
        some { name := String.ofList name, arch := some (String.ofList arch) }
      else none
    | none => none
  | .name => if !cs.isEmpty && cs.all (· != ':') then some { name := pattern } else none

/-- Every reading of `pattern`, the most specific first. -/
def readings (pattern : String) : List (NevraForm × Nevra) :=
  NevraForm.all.filterMap fun form => (parse? pattern form).map fun n => (form, n)

def evr? (n : Nevra) : Option Evr :=
  n.version.map fun version => ⟨n.epoch.getD 0, version, n.release.getD ""⟩

def text (n : Nevra) : String :=
  n.name ++
    (match n.version with
      | some version =>
        "-" ++ (match n.epoch with | some e => s!"{e.toNat}:" | none => "") ++ version
      | none => "") ++
    (match n.release with | some release => s!"-{release}" | none => "") ++
    (match n.arch with | some arch => s!".{arch}" | none => "")

end Nevra

end Depsolve
