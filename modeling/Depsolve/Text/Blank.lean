/-!
# Blank characters

White space is the Unicode property `White_Space`, not the ASCII class. Texts
are trimmed and cut into fields with it.
-/
namespace Depsolve

/-- The 25 code points with the property `White_Space`. -/
def isBlankCode (n : Nat) : Bool :=
  (9 ≤ n && n ≤ 13) || n == 0x20 || n == 0x85 || n == 0xa0 || n == 0x1680 ||
    (0x2000 ≤ n && n ≤ 0x200a) || n == 0x2028 || n == 0x2029 || n == 0x202f ||
    n == 0x205f || n == 0x3000

def isBlank (c : Char) : Bool := isBlankCode c.toNat

def trimRight (cs : List Char) : List Char :=
  (cs.reverse.dropWhile isBlank).reverse

def trimChars (cs : List Char) : List Char :=
  trimRight (cs.dropWhile isBlank)

def trim (s : String) : String := String.ofList (trimChars s.toList)

/-- Cut a text at every character that `cut` accepts; the cuts themselves are dropped. -/
def splitChars (cut : Char → Bool) : List Char → List (List Char)
  | [] => [[]]
  | c :: cs =>
    match splitChars cut cs with
    | [] => if cut c then [[], []] else [[c]]
    | field :: fields => if cut c then [] :: field :: fields else (c :: field) :: fields

/-- The non-empty fields between commas, without the blanks around them. -/
def commaFields (s : String) : List String :=
  (((splitChars (· == ',') s.toList).map trimChars).filter (!·.isEmpty)).map String.ofList

/-- The non-empty fields between commas and blanks. -/
def wordFields (s : String) : List String :=
  ((splitChars (fun c => c == ',' || isBlank c) s.toList).filter (!·.isEmpty)).map String.ofList

def cutFirst (mark : Char) : List Char → Option (List Char × List Char)
  | [] => none
  | c :: cs =>
    if c = mark then some ([], cs)
    else (cutFirst mark cs).map fun (before, after) => (c :: before, after)

/-- The part before the last `mark` and the part after it. -/
def cutLast (mark : Char) : List Char → Option (List Char × List Char)
  | [] => none
  | c :: cs =>
    match cutLast mark cs with
    | some (before, after) => some (c :: before, after)
    | none => if c = mark then some ([], cs) else none

end Depsolve
