/-!
# Faults of a JSON text

Why a text is no JSON value, and where: the place just behind the character at
fault, or the end of a text that is too short. Lines are counted from one, and
columns in bytes.
-/
namespace Depsolve.Json

inductive Fault where
  | endInList
  | endInObject
  | endInString
  | endInValue
  | expectedColon
  | expectedListComma
  | expectedObjectComma
  | expectedIdent
  | expectedValue
  | invalidEscape
  | invalidNumber
  | numberOutOfRange
  | controlCharacter
  | keyNotString
  | loneSurrogate
  | trailingComma
  | trailingCharacters
  | endOfEscape
  | tooDeep
  /-- A value of another kind where an object is wanted. -/
  | notMap (found : String)
deriving DecidableEq

def Fault.message : Fault → String
  | .endInList => "EOF while parsing a list"
  | .endInObject => "EOF while parsing an object"
  | .endInString => "EOF while parsing a string"
  | .endInValue => "EOF while parsing a value"
  | .expectedColon => "expected `:`"
  | .expectedListComma => "expected `,` or `]`"
  | .expectedObjectComma => "expected `,` or `\x7d`"
  | .expectedIdent => "expected ident"
  | .expectedValue => "expected value"
  | .invalidEscape => "invalid escape"
  | .invalidNumber => "invalid number"
  | .numberOutOfRange => "number out of range"
  | .controlCharacter => "control character (\\u0000-\\u001F) found while parsing a string"
  | .keyNotString => "key must be a string"
  | .loneSurrogate => "lone leading surrogate in hex escape"
  | .trailingComma => "trailing comma"
  | .trailingCharacters => "trailing characters"
  | .endOfEscape => "unexpected end of hex escape"
  | .tooDeep => "recursion limit exceeded"
  | .notMap found => s!"invalid type: {found}, expected a map"

/-- A fault with the number of bytes in front of its place. -/
structure FaultAt where
  fault : Fault
  offset : Nat
deriving DecidableEq

structure Position where
  line : Nat
  column : Nat
deriving DecidableEq

def positionAfter (bytes : Nat) (s : String) : Position :=
  (s.toUTF8.toList.take bytes).foldl
    (fun p b => if b == 10 then ⟨p.line + 1, 0⟩ else ⟨p.line, p.column + 1⟩) ⟨1, 0⟩

structure SyntaxError where
  fault : Fault
  position : Position
deriving DecidableEq

def SyntaxError.message (e : SyntaxError) : String :=
  s!"{e.fault.message} at line {e.position.line} column {e.position.column}"

def FaultAt.locate (f : FaultAt) (s : String) : SyntaxError :=
  ⟨f.fault, positionAfter f.offset s⟩

end Depsolve.Json
