/-!
# Shortest decimals

The fewest decimal digits that read back as the same binary64 number, and of
those the nearest to it. The arithmetic is exact, on natural numbers.
-/
namespace Depsolve.Decimal

-- `2 ^ n` is the power of natural numbers itself, whatever other powers are in scope
attribute [local instance (high)] instPowNat

/-- A positive value `digits * 10 ^ exponent`. -/
structure Scaled where
  digits : Nat
  exponent : Int

/-- A finite positive binary64 number with the ends of the interval that rounds to it, all
three as multiples of one unit, a quarter of the last place. The unit is `2 ^ scale`. -/
structure Binary where
  low : Nat
  value : Nat
  high : Nat
  scale : Int
  /-- Whether the ends themselves round to the number. -/
  closed : Bool

/-- Decode the bits below the sign. At a power of two the lower neighbour is nearer. -/
def Binary.ofBits (bits : Nat) : Binary :=
  let fraction := bits % 2 ^ (52 : Nat)
  let exponent := bits / 2 ^ (52 : Nat) % 2 ^ (11 : Nat)
  let m := if exponent = 0 then fraction else fraction + 2 ^ (52 : Nat)
  let gap := if fraction = 0 && exponent > 1 then 1 else 2
  { low := 4 * m - gap
    value := 4 * m
    high := 4 * m + 2
    scale := (max exponent 1 : Nat) - 1077
    closed := m % 2 == 0 }

def countDigits (n : Nat) : Nat := (Nat.toDigits 10 n).length

def leadingExponent (num den : Nat) : Int :=
  if den ≤ num then (countDigits (num / den) : Int) - 1
  else -(countDigits ((den + num - 1) / num - 1) : Int)

def scaleUp (k : Int) (num den : Nat) : Nat × Nat :=
  if 0 ≤ k then (num, den * 10 ^ k.toNat) else (num * 10 ^ (-k).toNat, den)

/-- The point of the grid of multiples of `10 ^ k` that lies in the interval, if one of the
two neighbours of the value does. The nearer wins, and an even one at equal distance. -/
def Binary.onGrid? (b : Binary) (k : Int) : Option Scaled :=
  let unit (n : Nat) : Nat × Nat :=
    if 0 ≤ b.scale then (n * 2 ^ b.scale.toNat, 1) else (n, 2 ^ (-b.scale).toNat)
  let at_ (n : Nat) : Nat × Nat := scaleUp k (unit n).1 (unit n).2
  let (num, den) := at_ b.value
  let down := num / den
  let inside (x : Nat) : Bool :=
    let (lowNum, lowDen) := at_ b.low
    let (highNum, highDen) := at_ b.high
    if b.closed then lowNum ≤ x * lowDen && x * highDen ≤ highNum
    else lowNum < x * lowDen && x * highDen < highNum
  let rest := 2 * (num % den)
  let preferDown := rest < den || rest == den && down % 2 == 0
  match inside down && down != 0, inside (down + 1) with
  | true, true => some ⟨if preferDown then down else down + 1, k⟩
  | true, false => some ⟨down, k⟩
  | false, true => some ⟨down + 1, k⟩
  | false, false => none

/-- Try grids of one digit, two digits and so on, `tries` of them from `k` down. -/
def Binary.firstGrid (b : Binary) : Nat → Int → Scaled
  | 0, k => ⟨b.value, k⟩
  | tries + 1, k =>
    match b.onGrid? k with
    | some s => s
    | none => b.firstGrid tries (k - 1)

/-- Zeros at the end go into the exponent. -/
def Scaled.strip (s : Scaled) : Scaled :=
  let ds := Nat.toDigits 10 s.digits
  let zeros := (ds.reverse.takeWhile (· == '0')).length
  ⟨s.digits / 10 ^ zeros, s.exponent + zeros⟩

def Binary.shortest (b : Binary) : Scaled :=
  let (num, den) : Nat × Nat :=
    if 0 ≤ b.scale then (b.value * 2 ^ b.scale.toNat, 1)
    else (b.value, 2 ^ (-b.scale).toNat)
  (b.firstGrid 17 (leadingExponent num den)).strip

/-- How numbers are laid out: which positions of the point are written without an exponent,
and the sign of an exponent that is not negative. -/
structure Layout where
  leastPoint : Int
  mostPoint : Int
  plus : String

/-- Digits with a point after `point` of them. A whole number keeps one zero behind the point. -/
def Layout.positional (ds : String) (point : Int) : String :=
  let n : Int := ds.toList.length
  let zeros (k : Int) : String := String.ofList (List.replicate k.toNat '0')
  if n ≤ point then ds ++ zeros (point - n) ++ ".0"
  else if 0 < point then
    String.ofList (ds.toList.take point.toNat) ++ "." ++ String.ofList (ds.toList.drop point.toNat)
  else "0." ++ zeros (-point) ++ ds

def Layout.scientific (l : Layout) (ds : String) (exponent : Int) : String :=
  let mantissa :=
    match ds.toList with
    | d :: r :: rest => String.ofList (d :: '.' :: r :: rest)
    | _ => ds
  if exponent < 0 then s!"{mantissa}e-{exponent.natAbs}"
  else s!"{mantissa}e{l.plus}{exponent.natAbs}"

def Layout.write (l : Layout) (s : Scaled) : String :=
  let ds := toString s.digits
  let point : Int := ds.toList.length + s.exponent
  if l.leastPoint ≤ point && point ≤ l.mostPoint then Layout.positional ds point
  else l.scientific ds (point - 1)

def Layout.writeFloat (l : Layout) (x : Float) : String :=
  let bits := x.toBits.toNat
  let sign := if bits / 2 ^ (63 : Nat) = 1 then "-" else ""
  let magnitude := bits % 2 ^ (63 : Nat)
  if magnitude = 0 then sign ++ "0.0"
  else sign ++ l.write (Binary.ofBits magnitude).shortest

end Depsolve.Decimal
