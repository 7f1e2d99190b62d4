import LineScope.Json.Value
import LineScope.Number.Decimal

/-!
# Writing JSON

JSON over several lines, two blanks deeper on each level, with ASCII characters only: other
characters are written as the numbers of their UTF-16 units.
-/

namespace LineScope.Json

open LineScope.Text

/-- The number of a UTF-16 unit. -/
def unitText (n : Nat) : List Char := ['\\', 'u'] ++ hexDigits 4 n

/-- How a character is written inside a string. -/
def charText (c : Char) : List Char :=
  if c = '"' ∨ c = '\\' then ['\\', c]
  else if c = '\n' then ['\\', 'n']
  else if c = '\r' then ['\\', 'r']
  else if c = '\t' then ['\\', 't']
  else if c = '\x08' then ['\\', 'b']
  else if c = '\x0c' then ['\\', 'f']
  else if 32 ≤ c.toNat && c.toNat < 127 then [c]
  else if c.toNat < 0x10000 then unitText c.toNat
  else
    let n := c.toNat - 0x10000
    unitText (0xd800 + n / 0x400) ++ unitText (0xdc00 + n % 0x400)

/-- How a code point is written inside a string. -/
def pointText : CodePoint → List Char
  | .char c => charText c
  | .half unit _ => unitText unit

/-- A string between quotes. -/
def stringText (points : List CodePoint) : String :=
  String.ofList (['"'] ++ points.flatMap pointText ++ ['"'])

/-- A line end and the indentation of a level. -/
def lineStart (level : Nat) : String := "\n" ++ String.ofList (List.replicate (2 * level) ' ')

/-- Written items between brackets, each on a line of its own. -/
def enclosed (opening closing : String) (level : Nat) (items : List String) : String :=
  if items.isEmpty then opening ++ closing
  else
    opening ++ lineStart (level + 1) ++ String.intercalate ("," ++ lineStart (level + 1)) items ++
      lineStart level ++ closing

/-- The text of a number; those that are not finite have names. -/
def floatText : Number.Binary64 → String
  | .undefined => "NaN"
  | .infinite negative => if negative then "-Infinity" else "Infinity"
  | value => value.text

mutual

/-- The text of a value on a level. -/
def textAt (level : Nat) : Json → String
  | .null => "null"
  | .bool true => "true"
  | .bool false => "false"
  | .int value => toString value
  | .float value => floatText value
  | .string value => stringText value
  | .array items => enclosed "[" "]" level (itemTexts (level + 1) items)
  | .object ⟨members⟩ => enclosed "\x7b" "\x7d" level (memberTexts (level + 1) members)

/-- The texts of the items of an array. -/
def itemTexts (level : Nat) : List Json → List String
  | [] => []
  | item :: items => textAt level item :: itemTexts level items

/-- The texts of the members of an object. -/
def memberTexts (level : Nat) : List (List CodePoint × Json) → List String
  | [] => []
  | (key, value) :: members =>
    (stringText key ++ ": " ++ textAt level value) :: memberTexts level members

end

/-- The text of a value. -/
def text (value : Json) : String := textAt 0 value

end LineScope.Json
