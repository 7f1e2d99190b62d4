import LineScope.Text.Printable

/-!
# Quoted texts and sequences

Messages and log lines show a text between quotes, with what cannot be printed spelled out, and a
sequence between brackets.
-/

namespace LineScope.Text

/-- The digits of a number in base sixteen, filled up with zeros on the left. -/
def hexDigits (width n : Nat) : List Char :=
  let ds := Nat.toDigits 16 n
  List.replicate (width - ds.length) '0' ++ ds

/-- The quote around a text: a double one if the text holds single quotes only. -/
def quoteMark (cs : List Char) : Char :=
  if cs.contains '\'' && !cs.contains '"' then '"' else '\''

/-- How a character is spelled inside the given quotes. -/
def spell (mark c : Char) : List Char :=
  if c = mark ∨ c = '\\' then ['\\', c]
  else if c = '\n' then ['\\', 'n']
  else if c = '\r' then ['\\', 'r']
  else if c = '\t' then ['\\', 't']
  else if isPrintable c then [c]
  else if c.toNat < 0x100 then ['\\', 'x'] ++ hexDigits 2 c.toNat
  else if c.toNat < 0x10000 then ['\\', 'u'] ++ hexDigits 4 c.toNat
  else ['\\', 'U'] ++ hexDigits 8 c.toNat

/-- A text between quotes. -/
def quote (s : String) : String :=
  let cs := s.toList
  let mark := quoteMark cs
  String.ofList ([mark] ++ cs.flatMap (spell mark) ++ [mark])

/-- A sequence of written items between square brackets. -/
def bracketed (items : List String) : String :=
  "[" ++ String.intercalate ", " items ++ "]"

/-- A sequence of written items between parentheses; a single one is followed by a comma. -/
def parenthesized : List String → String
  | [item] => "(" ++ item ++ ",)"
  | items => "(" ++ String.intercalate ", " items ++ ")"

/-- A sequence of quoted texts. -/
def quoteList (items : List String) : String := bracketed (items.map quote)

end LineScope.Text
