import Depsolve.Version.Compare
/-!
# Tokens of a version text

The marks and maximal runs of a version text in order, and their byte encoding.
Separators leave no token, and a run of digits loses the zeros in front.
-/
namespace Depsolve.Version

inductive Token where
  | tilde
  | caret
  | letters (run : List Char)
  | number (digits : List Char)
deriving DecidableEq

/-- The run that is being read. -/
inductive Run where
  | none
  | letters (run : List Char)
  | digits (run : List Char)

def Run.close : Run → List Token
  | .none => []
  | .letters run => [.letters run]
  | .digits run => [.number (stripZeros run)]

/-- Read one character: the tokens it completes and the run it leaves open. -/
def Run.read (open_ : Run) (c : Char) : List Token × Run :=
  if c.isDigit then
    match open_ with
    | .digits run => ([], .digits (run ++ [c]))
    | other => (other.close, .digits [c])
  else if c.isAlpha then
    match open_ with
    | .letters run => ([], .letters (run ++ [c]))
    | other => (other.close, .letters [c])
  else if c = '~' then (open_.close ++ [.tilde], .none)
  else if c = '^' then (open_.close ++ [.caret], .none)
  else (open_.close, .none)

def tokensFrom (open_ : Run) : List Char → List Token
  | [] => open_.close
  | c :: cs => (open_.read c).1 ++ tokensFrom (open_.read c).2 cs

def tokens (s : String) : List Token := tokensFrom .none s.toList

def byteOf (c : Char) : UInt8 := UInt8.ofNat c.toNat

/-- Marks stand for themselves; a run has a kind byte in front and `ff` behind. -/
def Token.bytes : Token → List UInt8
  | .tilde => [byteOf '~']
  | .caret => [byteOf '^']
  | .letters run => byteOf 'a' :: run.map byteOf ++ [0xff]
  | .number digits => byteOf '0' :: digits.map byteOf ++ [0xff]

def bytes (s : String) : List UInt8 := (tokens s).flatMap Token.bytes

end Depsolve.Version
