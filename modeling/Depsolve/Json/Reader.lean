import Depsolve.Association
import Depsolve.Json.Fault
import Depsolve.Json.Number
import Depsolve.Text.Quoted
/-!
# Reading JSON

A text is read character by character, with a stack of the containers that are
still open. The grammar alone admits numbers out of range, halves of surrogate
pairs and any depth. Such a thing is refused only where its value is wanted, so a
part that is skipped may hold it. Reading reports the first fault or refusal.
-/
namespace Depsolve.Json

/-- A part of a string as it was written: a character or half of a surrogate pair. -/
inductive StringUnit where
  | char (c : Char)
  | half (code : Nat)

def joinUnits? : List StringUnit → Option (List Char)
  | [] => some []
  | .char c :: us => (joinUnits? us).map (c :: ·)
  | .half high :: .half low :: us =>
    if high < 0xdc00 && 0xdc00 ≤ low then
      (joinUnits? us).map (Char.ofNat (0x10000 + (high - 0xd800) * 0x400 + (low - 0xdc00)) :: ·)
    else none
  | .half _ :: _ => none

/-- A text of correct form, not yet given a value. -/
inductive Draft where
  | null
  | bool (b : Bool)
  /-- The value, unless it is out of range. -/
  | number (value : Option Json)
  /-- The text, unless it holds half of a surrogate pair. -/
  | string (value : Option String)
  | array (items : List Draft)
  | object (members : List (Option String × Draft))

/-- A container that is still open, its parts backwards. -/
inductive OpenDraft where
  | array (items : List Draft)
  /-- The key belongs to the value that comes next. -/
  | object (members : List (Option String × Draft)) (key : Option String)

/-- What stands before a value or a key. -/
inductive Before where
  /-- Nothing, or a colon. -/
  | start
  | openBracket
  | comma
deriving DecidableEq

/-- What is read next. Texts in progress are kept backwards. -/
inductive Mode where
  | value (before : Before)
  | key (before : Before)
  | colon
  /-- Whatever may follow a complete value. -/
  | after (v : Draft)
  | word (left : List Char) (v : Draft)
  | number (l : NumberLiteral)
  | string (isKey : Bool) (units : List StringUnit)
  | escape (isKey : Bool) (units : List StringUnit)
  /-- The code, unless a character was no hexadecimal digit, and the bytes read of it. -/
  | hex (isKey : Bool) (units : List StringUnit) (code : Option Nat) (bytes : Nat)

structure Reading where
  /-- Whether the outermost value has to be an object. -/
  objectOnly : Bool := false
  mode : Mode := .value .start
  stack : List OpenDraft := []
  /-- The number of bytes read. -/
  offset : Nat := 0
  /-- The first thing that has no value. -/
  refusal : Option FaultAt := none

def isJsonBlank (c : Char) : Bool := c == ' ' || c == '\n' || c == '\t' || c == '\r'

def hexValue? (c : Char) : Option Nat :=
  if c.isDigit then some (c.toNat - '0'.toNat)
  else if 'a'.toNat ≤ c.toNat && c.toNat ≤ 'f'.toNat then some (c.toNat - 'a'.toNat + 10)
  else if 'A'.toNat ≤ c.toNat && c.toNat ≤ 'F'.toNat then some (c.toNat - 'A'.toNat + 10)
  else none

def simpleEscape? : Char → Option Char
  | '"' => some '"'
  | '\\' => some '\\'
  | '/' => some '/'
  | 'b' => some '\x08'
  | 'f' => some '\x0c'
  | 'n' => some '\n'
  | 'r' => some '\r'
  | 't' => some '\t'
  | _ => none

def isSurrogate (code : Nat) : Bool := 0xd800 ≤ code && code < 0xe000

def isLowHalf (code : Nat) : Bool := 0xdc00 ≤ code && code < 0xe000

def unitOfCode (code : Nat) : StringUnit :=
  if isSurrogate code then .half code else .char (Char.ofNat code)

/-- Whether the second half of a surrogate pair has to come next. -/
def awaitsHalf : List StringUnit → Bool
  | .half code :: _ => !isLowHalf code
  | _ => false

/-- Containers may be nested 127 deep. -/
def depthLimit : Nat := 128

/-- What a value other than an object is called. -/
def Draft.describe : Draft → String
  | .null => "null"
  | .bool b => if b then "boolean `true`" else "boolean `false`"
  | .number (some (.int n)) => s!"integer `{n}`"
  | .number (some v) =>
    let text := v.text
    s!"floating point `{text}`"
  | .number none => "number"
  | .string s => "string " ++ quoted (s.getD "")
  | .array _ => "sequence"
  | .object _ => "map"

namespace Reading

abbrev Step := Except FaultAt Reading

/-- Stop. What was refused before is reported rather than the fault. -/
def stop {α : Type} (r : Reading) (fault : Fault) (offset : Nat) : Except FaultAt α :=
  .error (r.refusal.getD ⟨fault, offset⟩)

/-- Stop behind the first byte of the next character. -/
def stopHere (r : Reading) (fault : Fault) : Step := r.stop fault (r.offset + 1)

/-- Go on, but remember what was refused first. -/
def refuse (r : Reading) (bad : Bool) (fault : Fault) (offset : Nat) : Reading :=
  if bad then { r with refusal := r.refusal <|> some ⟨fault, offset⟩ } else r

def take (r : Reading) (c : Char) (mode : Mode) : Reading :=
  { r with mode, offset := r.offset + c.utf8Size }

def scalar (r : Reading) (v : Draft) : Step :=
  if r.objectOnly && r.stack.isEmpty then r.stop (.notMap v.describe) r.offset
  else .ok { r with mode := .after v }

def opened (r : Reading) (c : Char) (container : OpenDraft) (mode : Mode) : Reading :=
  let deep := !(r.stack.drop (depthLimit - 2)).isEmpty
  { (r.refuse deep .tooDeep (r.offset + 1)).take c mode with stack := container :: r.stack }

def beginValue (r : Reading) (c : Char) : Step :=
  match c with
  | 'n' => .ok (r.take c (.word ['u', 'l', 'l'] .null))
  | 't' => .ok (r.take c (.word ['r', 'u', 'e'] (.bool true)))
  | 'f' => .ok (r.take c (.word ['a', 'l', 's', 'e'] (.bool false)))
  | '"' => .ok (r.take c (.string false []))
  | '[' =>
    if r.objectOnly && r.stack.isEmpty then r.stop (.notMap (Draft.array []).describe) r.offset
    else .ok (r.opened c (.array []) (.value .openBracket))
  | '\x7b' => .ok (r.opened c (.object [] none) (.key .openBracket))
  | c =>
    match NumberLiteral.start? c with
    | some l => .ok (r.take c (.number l))
    | none => r.stopHere .expectedValue

def closed (r : Reading) (c : Char) (stack : List OpenDraft) (v : Draft) : Step :=
  .ok { r.take c (.after v) with stack }

def stepAfter (r : Reading) (v : Draft) (c : Char) : Step :=
  if isJsonBlank c then .ok (r.take c (.after v))
  else
    match r.stack with
    | [] => r.stopHere .trailingCharacters
    | .array items :: stack =>
      if c == ',' then
        .ok { r.take c (.value .comma) with stack := .array (v :: items) :: stack }
      else if c == ']' then r.closed c stack (.array (v :: items).reverse)
      else r.stopHere .expectedListComma
    | .object members k :: stack =>
      if c == ',' then
        .ok { r.take c (.key .comma) with stack := .object ((k, v) :: members) none :: stack }
      else if c == '\x7d' then r.closed c stack (.object ((k, v) :: members).reverse)
      else r.stopHere .expectedObjectComma

def stepValue (r : Reading) (before : Before) (c : Char) : Step :=
  if isJsonBlank c then .ok (r.take c (.value before))
  else if c == ']' && before == .comma then r.stopHere .trailingComma
  else if c == ']' && before == .openBracket then r.closed c r.stack.tail (.array [])
  else r.beginValue c

def stepKey (r : Reading) (before : Before) (c : Char) : Step :=
  if isJsonBlank c then .ok (r.take c (.key before))
  else if c == '"' then .ok (r.take c (.string true []))
  else if c == '\x7d' && before == .comma then r.stopHere .trailingComma
  else if c == '\x7d' then r.closed c r.stack.tail (.object [])
  else r.stopHere .keyNotString

def stringDone (r : Reading) (isKey : Bool) (units : List StringUnit) : Step :=
  let text := (joinUnits? units.reverse).map String.ofList
  let r := r.take '"' .colon
  if isKey then
    match r.stack with
    | .object members _ :: stack => .ok { r with stack := .object members text :: stack }
    | _ => .ok r
  else r.scalar (.string text)

def stepString (r : Reading) (isKey : Bool) (units : List StringUnit) (c : Char) : Step :=
  let r := r.refuse (awaitsHalf units && c != '\\') .endOfEscape (r.offset + 1)
  if c == '"' then r.stringDone isKey units
  else if c == '\\' then .ok (r.take c (.escape isKey units))
  else if c.toNat < 0x20 then r.stopHere .controlCharacter
  else .ok (r.take c (.string isKey (.char c :: units)))

def stepEscape (r : Reading) (isKey : Bool) (units : List StringUnit) (c : Char) : Step :=
  let r := r.refuse (awaitsHalf units && c != 'u') .endOfEscape (r.offset + 1)
  if c == 'u' then .ok (r.take c (.hex isKey units (some 0) 0))
  else
    match simpleEscape? c with
    | some x => .ok (r.take c (.string isKey (.char x :: units)))
    | none => r.stopHere .invalidEscape

/-- A character of a code. Four bytes are read before they are looked at. -/
def stepHex (r : Reading) (isKey : Bool) (units : List StringUnit) (code : Option Nat)
    (bytes : Nat) (c : Char) : Step :=
  let code :=
    match code, hexValue? c with
    | some n, some d => some (16 * n + d)
    | _, _ => none
  if bytes + c.utf8Size < 4 then
    .ok (r.take c (.hex isKey units code (bytes + c.utf8Size)))
  else
    match code with
    | none => r.stop .invalidEscape (r.offset + (4 - bytes))
    | some code =>
      let alone := awaitsHalf units != isLowHalf code
      .ok ((r.refuse alone .loneSurrogate (r.offset + 1)).take c
        (.string isKey (unitOfCode code :: units)))

/-- The end of a number, in front of the next character. -/
def numberDone (r : Reading) (l : NumberLiteral) : Step :=
  let value := l.value?
  (r.refuse value.isNone .numberOutOfRange r.offset).scalar (.number value)

def stepNumber (r : Reading) (l : NumberLiteral) (c : Char) : Step :=
  match l.next? c with
  | some l => .ok ((r.refuse l.overflows .numberOutOfRange (r.offset + 1)).take c (.number l))
  | none =>
    if l.canEndBefore c then
      match r.numberDone l with
      | .ok r => r.stepAfter (.number l.value?) c
      | .error e => .error e
    else r.stopHere .invalidNumber

def step (r : Reading) (c : Char) : Step :=
  match r.mode with
  | .value before => r.stepValue before c
  | .key before => r.stepKey before c
  | .colon =>
    if isJsonBlank c then .ok (r.take c .colon)
    else if c == ':' then .ok (r.take c (.value .start))
    else r.stopHere .expectedColon
  | .after v => r.stepAfter v c
  | .word [] v => r.stepAfter v c
  | .word [x] v => if c == x then (r.take c (.after v)).scalar v else r.stopHere .expectedIdent
  | .word (x :: left) v =>
    if c == x then .ok (r.take c (.word left v)) else r.stopHere .expectedIdent
  | .number l => r.stepNumber l c
  | .string isKey units => r.stepString isKey units c
  | .escape isKey units => r.stepEscape isKey units c
  | .hex isKey units code bytes => r.stepHex isKey units code bytes c

def endFault : List OpenDraft → Fault
  | .array _ :: _ => .endInList
  | .object .. :: _ => .endInObject
  | [] => .endInValue

def finishAfter (r : Reading) (v : Draft) : Except FaultAt (Draft × Option FaultAt) :=
  if r.stack.isEmpty then .ok (v, r.refusal) else r.stop (endFault r.stack) r.offset

/-- The end of the text: what was read, and what of it was refused first. -/
def finish (r : Reading) : Except FaultAt (Draft × Option FaultAt) :=
  match r.mode with
  | .after v => r.finishAfter v
  | .number l =>
    if l.stage.isEnd then
      match r.numberDone l with
      | .ok r => r.finishAfter (.number l.value?)
      | .error e => .error e
    else r.stop .endInValue r.offset
  | .value .openBracket | .key .openBracket | .colon => r.stop (endFault r.stack) r.offset
  | .value _ | .key _ | .word _ _ => r.stop .endInValue r.offset
  | .string .. | .escape .. | .hex .. => r.stop .endInString r.offset

end Reading

namespace Draft

def scan (s : String) (objectOnly : Bool := false) : Except FaultAt (Draft × Option FaultAt) :=
  match s.toList.foldlM Reading.step { objectOnly } with
  | .ok r => r.finish
  | .error e => .error e

def read? (s : String) : Option Draft := (scan s).toOption.map Prod.fst

end Draft

mutual

/-- The value of a draft, with the depth that is left. A repeated key keeps its first place
and its last value. -/
def Draft.value? (depth : Nat) : Draft → Option Json
  | .null => some .null
  | .bool b => some (.bool b)
  | .number v => v
  | .string s => s.map .string
  | .array items => if depth ≤ 1 then none else (itemValues? (depth - 1) items).map .array
  | .object members =>
    if depth ≤ 1 then none else (memberValues? (depth - 1) members).map fun ms =>
      .object (Association.ofList ms)

def itemValues? (depth : Nat) : List Draft → Option (List Json)
  | [] => some []
  | d :: ds =>
    match d.value? depth, itemValues? depth ds with
    | some v, some vs => some (v :: vs)
    | _, _ => none

def memberValues? (depth : Nat) : List (Option String × Draft) → Option (List (String × Json))
  | [] => some []
  | m :: ms =>
    match memberValue? depth m, memberValues? depth ms with
    | some v, some vs => some (v :: vs)
    | _, _ => none

def memberValue? (depth : Nat) : Option String × Draft → Option (String × Json)
  | (some k, d) => (d.value? depth).map fun v => (k, v)
  | (none, _) => none

end

/-- The value of what was scanned in a text. A draft without a value has a refused part. -/
def ofScan (s : String) : Except FaultAt (Draft × Option FaultAt) → Except SyntaxError Json
  | .error e => .error (e.locate s)
  | .ok (d, refusal) =>
    match d.value? depthLimit with
    | some v => .ok v
    | none => .error ((refusal.getD ⟨.expectedValue, s.utf8ByteSize⟩).locate s)

def read (s : String) : Except SyntaxError Json := ofScan s (Draft.scan s)

def read? (s : String) : Option Json := (read s).toOption

def readMembers (s : String) : Except SyntaxError (List (String × Json)) :=
  match ofScan s (Draft.scan s true) with
  | .ok (.object members) => .ok members
  | .ok v => .error (FaultAt.locate ⟨.notMap v.text, 0⟩ s)
  | .error e => .error e

end Depsolve.Json
