import Depsolve.Decimal.Shortest
/-!
# JSON values

Objects keep their members in order, each key once. Integers are those that fit
in 64 bits, with or without sign; every other number is a binary64 number.
-/
namespace Depsolve

inductive Json where
  | null
  | bool (b : Bool)
  | int (n : Int)
  | float (x : Float)
  | string (s : String)
  | array (items : List Json)
  | object (members : List (String × Json))

namespace Json

def bool? : Json → Option Bool
  | .bool b => some b
  | _ => none

def string? : Json → Option String
  | .string s => some s
  | _ => none

def word? : Json → Option Nat
  | .int (.ofNat n) => some n
  | _ => none

/-- Positional up to sixteen places before the point and four zeros behind it. -/
def numberLayout : Decimal.Layout := ⟨-4, 16, "+"⟩

def hexDigit (n : Nat) : Char := (Nat.toDigits 16 n).getLastD '0'

def escapeChar (c : Char) : List Char :=
  match c with
  | '"' => ['\\', '"']
  | '\\' => ['\\', '\\']
  | '\n' => ['\\', 'n']
  | '\r' => ['\\', 'r']
  | '\t' => ['\\', 't']
  | '\x08' => ['\\', 'b']
  | '\x0c' => ['\\', 'f']
  | c =>
    if c.toNat < 0x20 then
      ['\\', 'u', '0', '0', hexDigit (c.toNat / 16), hexDigit (c.toNat % 16)]
    else [c]

def quote (s : String) : String :=
  String.ofList ('"' :: s.toList.flatMap escapeChar ++ ['"'])

mutual

/-- Write a value behind a text, without blanks. -/
def write (out : String) : Json → String
  | .null => out ++ "null"
  | .bool b => out ++ if b then "true" else "false"
  | .int n => out ++ toString n
  | .float x => out ++ numberLayout.writeFloat x
  | .string s => out ++ quote s
  | .array items => (writeItems (out.push '[') items).push ']'
  | .object members => (writeMembers (out.push '\x7b') members).push '\x7d'

def writeItems (out : String) : List Json → String
  | [] => out
  | [v] => write out v
  | v :: vs => writeItems ((write out v).push ',') vs

def writeMembers (out : String) : List (String × Json) → String
  | [] => out
  | [m] => writeMember out m
  | m :: ms => writeMembers ((writeMember out m).push ',') ms

def writeMember (out : String) : String × Json → String
  | (k, v) => write ((out ++ quote k).push ':') v

end

def text (v : Json) : String := write "" v

end Json

end Depsolve
