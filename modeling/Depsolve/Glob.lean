/-!
# Name patterns

Shell-style patterns. A question mark stands for one character, a star for any
text, and brackets for one character of a class. Two stars are a path component
of their own: they stand for whole leading components, or for everything when
they end the pattern. A text that is no valid pattern matches only itself.
-/
namespace Depsolve

inductive GlobToken where
  | char (c : Char)
  | anyChar
  | anyText
  /-- Two stars: any number of whole path components. -/
  | anyComponents
  | oneOf (ranges : List (Char × Char))
  | noneOf (ranges : List (Char × Char))
deriving DecidableEq

structure Glob where
  /-- The pattern as it was compiled. -/
  pattern : String
  tokens : List GlobToken
deriving DecidableEq

namespace Glob

/-- Members of a class: `a-z` is a range, a dash at either end is itself. -/
def classRanges : List Char → List (Char × Char)
  | a :: '-' :: b :: cs => (a, b) :: classRanges cs
  | a :: cs => (a, a) :: classRanges cs
  | [] => []

def inRanges (ranges : List (Char × Char)) (c : Char) : Bool :=
  ranges.any fun r => r.1.val ≤ c.val && c.val ≤ r.2.val

/-- Where the reader stands in a pattern. -/
inductive Mode where
  /-- Outside brackets; the flag says that a path component starts here. -/
  | plain (componentStart : Bool)
  /-- In brackets, with the members read so far, backwards. A closing bracket cannot come
  first. -/
  | bracket (negated : Bool) (members : List Char)

def readTokens? : Mode → List Char → Option (List GlobToken)
  | .plain _, [] => some []
  | .plain _, '?' :: cs => (readTokens? (.plain false) cs).map (.anyChar :: ·)
  | .plain _, '*' :: '*' :: '*' :: _ => none
  | .plain start, '*' :: '*' :: [] => if start then some [.anyComponents] else none
  | .plain start, '*' :: '*' :: c :: cs =>
    if start && c == '/' then (readTokens? (.plain true) cs).map (.anyComponents :: ·) else none
  | .plain _, '*' :: cs => (readTokens? (.plain false) cs).map (.anyText :: ·)
  | .plain _, '[' :: '!' :: cs => readTokens? (.bracket true []) cs
  | .plain _, '[' :: cs => readTokens? (.bracket false []) cs
  | .plain _, c :: cs => (readTokens? (.plain (c == '/')) cs).map (.char c :: ·)
  | .bracket _ _, [] => none
  | .bracket negated members, c :: cs =>
    if c == ']' && !members.isEmpty then
      let ranges := classRanges members.reverse
      (readTokens? (.plain false) cs).map
        ((if negated then .noneOf ranges else .oneOf ranges) :: ·)
    else readTokens? (.bracket negated (c :: members)) cs

def tokens? (pattern : String) : Option (List GlobToken) :=
  readTokens? (.plain true) pattern.toList

def escape (s : String) : String :=
  String.ofList (s.toList.flatMap fun c =>
    if c == '?' || c == '*' || c == '[' || c == ']' then ['[', c, ']'] else [c])

/-- Compile a pattern; a text that is no pattern is escaped first. -/
def compile (pattern : String) : Glob :=
  match tokens? pattern with
  | some tokens => ⟨pattern, tokens⟩
  | none =>
    match tokens? (escape pattern) with
    | some tokens => ⟨escape pattern, tokens⟩
    | none => ⟨"", []⟩

/-- The text itself and everything left after removing characters from its front. -/
def suffixes : List Char → List (List Char)
  | [] => [[]]
  | c :: cs => (c :: cs) :: suffixes cs

/-- What can follow whole path components: a text after a slash, or nothing. -/
def componentSuffixes : List Char → List (List Char)
  | [] => [[]]
  | c :: cs => if c == '/' then cs :: componentSuffixes cs else componentSuffixes cs

inductive Outcome where
  | accepted
  /-- A pattern that begins further back in the text may still fit. -/
  | mismatch
  /-- The text ended before the pattern, so no later beginning helps. -/
  | exhausted
deriving DecidableEq

/-- The outcome of the first text that decides the matter. -/
def firstSettled (outcome : List Char → Outcome) : List (List Char) → Outcome
  | [] => .mismatch
  | cs :: rest =>
    match outcome cs with
    | .mismatch => firstSettled outcome rest
    | settled => settled

def matchTokens : List GlobToken → List Char → Outcome
  | [], cs => if cs.isEmpty then .accepted else .mismatch
  | .anyText :: ts, cs => firstSettled (matchTokens ts) (suffixes cs)
  | .anyComponents :: ts, cs => firstSettled (matchTokens ts) (cs :: componentSuffixes cs)
  | _ :: _, [] => .exhausted
  | .char x :: ts, c :: cs => if x == c then matchTokens ts cs else .mismatch
  | .anyChar :: ts, _ :: cs => matchTokens ts cs
  | .oneOf ranges :: ts, c :: cs => if inRanges ranges c then matchTokens ts cs else .mismatch
  | .noneOf ranges :: ts, c :: cs => if inRanges ranges c then .mismatch else matchTokens ts cs

def accepts (g : Glob) (name : String) : Bool := matchTokens g.tokens name.toList == .accepted

end Glob

def isGlob (s : String) : Bool :=
  s.toList.any fun c => c == '*' || c == '?' || c == '['

inductive NameMatch where
  | exact (name : String)
  | glob (pattern : Glob)
deriving DecidableEq

namespace NameMatch

/-- A text without special characters is compared as it stands. -/
def ofPattern (s : String) : NameMatch :=
  if isGlob s then .glob (Glob.compile s) else .exact s

def accepts : NameMatch → String → Bool
  | .exact n, name => n == name
  | .glob g, name => g.accepts name

end NameMatch

end Depsolve
