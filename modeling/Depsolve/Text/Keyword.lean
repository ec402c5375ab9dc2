/-!
# Keywords in any case

Lower case as far as it can produce an ASCII letter: the ASCII capitals and the
Kelvin sign. No other character has an ASCII letter as its whole lower case, so
a text equals an ASCII keyword in lower case exactly when its keyword form does.
-/
namespace Depsolve

def lowerChar (c : Char) : Char := if c = '\u212a' then 'k' else c.toLower

/-- The form in which a text is compared with ASCII keywords. -/
def keyword (s : String) : String := String.ofList (s.toList.map lowerChar)

end Depsolve
