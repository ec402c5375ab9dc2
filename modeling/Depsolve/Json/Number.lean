import Depsolve.Json.Basic
/-!
# JSON numbers

A written number without fraction and exponent is an integer when it fits in 64
bits. Every other number is a float: the digits that fit in a word, scaled by one
power of ten, so the last bit of long numbers is not always the nearest one.
-/
namespace Depsolve.Json

-- `2 ^ n` is the power of natural numbers itself, whatever other powers are in scope
attribute [local instance (high)] instPowNat

/-- What was read of a number last. -/
inductive NumberStage where
  | sign
  /-- A zero in front, after which no digit can come. -/
  | zero
  | whole
  | point
  | fraction
  | exponentMark
  | exponentSign
  | exponent
deriving DecidableEq

def NumberStage.isEnd : NumberStage → Bool
  | .zero | .whole | .fraction | .exponent => true
  | _ => false

/-- A number as it was written, as far as it is read. Digits are kept backwards. -/
structure NumberLiteral where
  stage : NumberStage
  negative : Bool := false
  whole : List Char := []
  fraction : List Char := []
  exponentNegative : Bool := false
  exponent : Nat := 0

def digitOf (c : Char) : Nat := c.toNat - '0'.toNat

def isExponentMark (c : Char) : Bool := c == 'e' || c == 'E'

namespace NumberLiteral

def start? (c : Char) : Option NumberLiteral :=
  if c == '-' then some { stage := .sign, negative := true }
  else if c == '0' then some { stage := .zero, whole := [c] }
  else if c.isDigit then some { stage := .whole, whole := [c] }
  else none

def next? (l : NumberLiteral) (c : Char) : Option NumberLiteral :=
  match l.stage with
  | .sign =>
    if c == '0' then some { l with stage := .zero, whole := [c] }
    else if c.isDigit then some { l with stage := .whole, whole := [c] }
    else none
  | .zero => markOrPoint
  | .whole => if c.isDigit then some { l with whole := c :: l.whole } else markOrPoint
  | .point | .fraction =>
    if c.isDigit then some { l with stage := .fraction, fraction := c :: l.fraction }
    else if l.stage == .fraction && isExponentMark c then some { l with stage := .exponentMark }
    else none
  | .exponentMark =>
    if c == '+' then some { l with stage := .exponentSign }
    else if c == '-' then some { l with stage := .exponentSign, exponentNegative := true }
    else exponentDigit
  | .exponentSign | .exponent => exponentDigit
where
  markOrPoint : Option NumberLiteral :=
    if c == '.' then some { l with stage := .point }
    else if isExponentMark c then some { l with stage := .exponentMark }
    else none
  exponentDigit : Option NumberLiteral :=
    if c.isDigit then some { l with stage := .exponent, exponent := 10 * l.exponent + digitOf c }
    else none

/-- Whether the number can end before a character. A digit cannot follow a zero in front. -/
def canEndBefore (l : NumberLiteral) (c : Char) : Bool :=
  l.stage.isEnd && !(l.stage == .zero && c.isDigit)

/-- Append digits to a word while it does not overflow: the word and the digits left over. -/
def pushDigits (word : Nat) : List Char → Nat × List Char
  | [] => (word, [])
  | c :: cs =>
    let next := 10 * word + digitOf c
    if next < 2 ^ (64 : Nat) then pushDigits next cs else (word, c :: cs)

def powerOfTen (n : Nat) : Float := Float.ofScientific 1 false n

/-- Divide by a power of ten, in steps of `308` places. -/
def divideByPower (x : Float) (n : Nat) : Float :=
  if n ≤ 308 then x / powerOfTen n
  else if x == 0 then x
  else divideByPower (x / powerOfTen 308) (n - 308)
termination_by n

/-- A word times a power of ten, unless that is too large. -/
def scale? (word : Nat) (exponent : Int) : Option Float :=
  let x := Float.ofNat word
  if exponent < 0 then some (divideByPower x exponent.natAbs)
  else if word = 0 then some x
  else if exponent.toNat > 308 then none
  else
    let y := x * powerOfTen exponent.toNat
    if y.isInf then none else some y

/-- The digits that fit in a word, and the power of ten that they are scaled by. -/
def significand (l : NumberLiteral) : Nat × Int :=
  let (word, left) := pushDigits 0 l.whole.reverse
  let (word, unread) := pushDigits word l.fraction.reverse
  let exponent : Int := if l.exponentNegative then -l.exponent else l.exponent
  (word, exponent + left.length - (l.fraction.length - unread.length : Nat))

/-- Whether the exponent alone is too large, whatever digits of it follow. -/
def overflows (l : NumberLiteral) : Bool :=
  2 ^ (31 : Nat) ≤ l.exponent && !l.exponentNegative && l.significand.1 != 0

/-- The value of a literal, unless it is out of range. Zero and magnitudes beyond the signed
range are floats when they are negative. -/
def value? (l : NumberLiteral) : Option Json :=
  let (word, left) := pushDigits 0 l.whole.reverse
  if (l.stage == .zero || l.stage == .whole) && left.isEmpty then
    if !l.negative then some (.int word)
    else if 0 < word && word ≤ 2 ^ (63 : Nat) then some (.int (-(word : Int)))
    else some (.float (-(Float.ofNat word)))
  else
    let (word, exponent) := l.significand
    (scale? word exponent).map fun x => .float (if l.negative then -x else x)

end NumberLiteral

end Depsolve.Json
