/-!
# Comparing version texts

A version text is a row of runs of digits and runs of letters. Every other
character separates, except that a tilde sorts below everything, the end of the
text included, and a caret sorts above the end but below any run. Only ASCII
letters and digits form runs.
-/
namespace Depsolve.Version

def isMark (c : Char) : Bool := c == '~' || c == '^'

/-- Characters that take part in the comparison. -/
def isPart (c : Char) : Bool := c.isAlphanum || isMark c

def skipSeparators (cs : List Char) : List Char := cs.dropWhile fun c => !isPart c

/-- The value of a run of digits does not depend on zeros in front. -/
def stripZeros (ds : List Char) : List Char := ds.dropWhile (· == '0')

def compareText (a b : List Char) : Ordering := List.compareLex compare a b

/-- Runs of digits as numbers of any size: the longer is larger, then the text decides. -/
def compareDigits (a b : List Char) : Ordering :=
  (compare (stripZeros a).length (stripZeros b).length).then
    (compareText (stripZeros a) (stripZeros b))

/-- Compare up to `fuel` marks and runs, counted on the left. -/
def compareUpTo : Nat → List Char → List Char → Ordering
  | 0, _, _ => .eq
  | fuel + 1, a, b =>
    match skipSeparators a, skipSeparators b with
    | '~' :: a, '~' :: b => compareUpTo fuel a b
    | '~' :: _, _ => .lt
    | _, '~' :: _ => .gt
    | '^' :: a, '^' :: b => compareUpTo fuel a b
    | '^' :: _, [] => .gt
    | '^' :: _, _ => .lt
    | [], '^' :: _ => .lt
    | _, '^' :: _ => .gt
    | [], [] => .eq
    | [], _ => .lt
    | _, [] => .gt
    | x :: a, y :: b =>
      match x.isDigit, y.isDigit with
      | true, false => .gt
      | false, true => .lt
      | true, true =>
        (compareDigits ((x :: a).takeWhile Char.isDigit) ((y :: b).takeWhile Char.isDigit)).then
          (compareUpTo fuel (a.dropWhile Char.isDigit) (b.dropWhile Char.isDigit))
      | false, false =>
        (compareText ((x :: a).takeWhile Char.isAlpha) ((y :: b).takeWhile Char.isAlpha)).then
          (compareUpTo fuel (a.dropWhile Char.isAlpha) (b.dropWhile Char.isAlpha))

/-- The order of version texts. Each step uses up a character of the left text, so its
length bounds the steps. -/
def compare (a b : String) : Ordering :=
  compareUpTo (a.toList.length + 1) a.toList b.toList

end Depsolve.Version
