/-!
# Decimal numerals

A numeral is a non-empty run of ASCII digits. Bounded readers accept a leading
plus sign and refuse a value outside their range.
-/
namespace Depsolve

-- `2 ^ n` is the power of natural numbers itself, whatever other powers are in scope
attribute [local instance (high)] instPowNat

/-- The value of a run of digits; other characters are not looked for. -/
def digitsValue (cs : List Char) : Nat :=
  cs.foldl (fun n c => 10 * n + (c.toNat - '0'.toNat)) 0

/-- The value of a non-empty run of digits and of nothing else. -/
def readDigits? (cs : List Char) : Option Nat :=
  if cs.isEmpty || !cs.all Char.isDigit then none else some (digitsValue cs)

/-- A numeral below `bound`, possibly with a plus sign. -/
def readBelow? (bound : Nat) : List Char → Option Nat
  | '+' :: cs => (readDigits? cs).filter (· < bound)
  | cs => (readDigits? cs).filter (· < bound)

def readUInt32? (cs : List Char) : Option UInt32 :=
  (readBelow? (2 ^ (32 : Nat)) cs).map UInt32.ofNat

def readWord? (cs : List Char) : Option Nat := readBelow? (2 ^ (64 : Nat)) cs

def readInt32? : List Char → Option Int
  | '-' :: cs => ((readDigits? cs).filter (· ≤ 2 ^ (31 : Nat))).map fun n => -(n : Int)
  | cs => (readBelow? (2 ^ (31 : Nat)) cs).map Int.ofNat

end Depsolve
