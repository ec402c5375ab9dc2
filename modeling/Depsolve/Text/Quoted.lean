import Depsolve.Text.Hidden
/-!
# Quoted texts

A text between quotes, for a message: whoever reads it sees every character of it.
-/
namespace Depsolve

/-- Quotes, backslashes and hidden characters are written by a backslash and a letter, or
by a code in hexadecimal digits. -/
def shownChar (c : Char) : List Char :=
  match c with
  | '"' => ['\\', '"']
  | '\\' => ['\\', '\\']
  | '\n' => ['\\', 'n']
  | '\r' => ['\\', 'r']
  | '\t' => ['\\', 't']
  | '\x00' => ['\\', '0']
  | c =>
    if isHidden c then ['\\', 'u', '\x7b'] ++ Nat.toDigits 16 c.toNat ++ ['\x7d'] else [c]

def quoted (s : String) : String :=
  String.ofList ('"' :: s.toList.flatMap shownChar ++ ['"'])

end Depsolve
