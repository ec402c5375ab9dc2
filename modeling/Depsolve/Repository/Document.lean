import Depsolve.Config
import Depsolve.Repository
/-!
# Repositories from documents

A repository can be held in memory or read from a JSON array of objects. A
string is taken as it is, a number by its text, and a list of strings is joined,
so dependency lists may be written either way.
-/
namespace Depsolve

namespace Record

def fieldText (index : Nat) (field : String) : Json → Except LoadCause String
  | .string s => .ok s
  | .int n => .ok (Json.int n).text
  | .float x => .ok (Json.float x).text
  | .array items =>
    match Settings.strings? items with
    | some texts => .ok (", ".intercalate texts)
    | none => .error (.notStrings index field)
  | _ => .error (.unsupportedValue index field)

def ofMembers (index : Nat) : List (String × Json) → Except LoadCause Record
  | [] => .ok []
  | (field, v) :: rest => do
    let text ← fieldText index field v
    let r ← ofMembers index rest
    pure ((field, text) :: r)

def ofItems : Nat → List Json → Except LoadCause (List Record)
  | _, [] => .ok []
  | index, .object members :: rest => do
    let r ← ofMembers index members
    let rs ← ofItems (index + 1) rest
    pure (r :: rs)
  | index, _ :: _ => .error (.notAnObject index)

def ofDocument (path text : String) : Except LoadCause (List Record) :=
  match Json.read text with
  | .error e => .error (.malformed path e)
  | .ok (.array items) => ofItems 0 items
  | .ok _ => .error (.notAnArray path)

end Record

/-- Where the records of a repository are. -/
inductive SourceContent where
  | memory (records : List Record)
  | document (path : String) (content : FileContent)

structure Source where
  id : String
  priority : Int := defaultPriority
  content : SourceContent

namespace Source

/-- The records of a source. Where nothing may be fetched a missing document counts as empty. -/
def records (s : Source) (cache : CacheLevel) : Except LoadError (List Record) :=
  match s.content with
  | .memory records => .ok records
  | .document path (.missing reason) =>
    if cache = .all then .ok [] else .error ⟨s.id, .unreadable path reason⟩
  | .document path (.unreadable reason) => .error ⟨s.id, .unreadable path reason⟩
  | .document path (.text text) => (Record.ofDocument path text).mapError (⟨s.id, ·⟩)

def fetch (s : Source) (cache : CacheLevel) : Except LoadError Repository := do
  let records ← s.records cache
  pure { id := s.id, priority := s.priority, system := s.id == systemRepository, records }

end Source

end Depsolve
