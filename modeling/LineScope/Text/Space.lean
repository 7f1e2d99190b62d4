/-!
# Blank characters

The characters that count as blank at the ends of a text, and the removal of such ends.
-/

namespace LineScope.Text

/-- The blank characters: the ASCII ones, four separators of information, and the spaces and line
separators of other scripts. -/
def isSpace (c : Char) : Bool :=
  let n := c.toNat
  (9 ≤ n && n ≤ 13) || (28 ≤ n && n ≤ 32) || n == 0x85 || n == 0xa0 || n == 0x1680 ||
    (0x2000 ≤ n && n ≤ 0x200a) || n == 0x2028 || n == 0x2029 || n == 0x202f || n == 0x205f ||
    n == 0x3000

/-- A space or a tab. -/
def isIndent (c : Char) : Bool := c == ' ' || c == '\t'

/-- A text without the characters of a class at its end. -/
def dropRight (p : Char → Bool) (cs : List Char) : List Char :=
  (cs.reverse.dropWhile p).reverse

/-- A text without the blank characters at its two ends. -/
def trim (cs : List Char) : List Char := dropRight isSpace (cs.dropWhile isSpace)

/-- A text of blank characters only. -/
def isBlank (cs : List Char) : Bool := cs.all isSpace

end LineScope.Text
