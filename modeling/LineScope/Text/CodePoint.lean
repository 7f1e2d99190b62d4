import LineScope.Text.Quoted

/-!
# Code points

A text that is spelled by the numbers of its UTF-16 units can hold half of a pair without the other
half.  Such a half is no character, but it is a code point, and two different halves make two
different texts.
-/

namespace LineScope.Text

/-- Half of a pair of UTF-16 units: the first. -/
def isHighUnit (n : Nat) : Bool := 0xd800 ≤ n && n < 0xdc00

/-- Half of a pair of UTF-16 units: the second. -/
def isLowUnit (n : Nat) : Bool := 0xdc00 ≤ n && n < 0xe000

/-- A character, or half of a pair of UTF-16 units that stands alone. -/
inductive CodePoint where
  | char (c : Char)
  | half (unit : Nat) (isHalf : (isHighUnit unit || isLowUnit unit) = true)
deriving DecidableEq

namespace CodePoint

/-- The code point of one UTF-16 unit. -/
def ofUnit (n : Nat) : CodePoint :=
  if h : isHighUnit n || isLowUnit n then .half n h else .char (Char.ofNat n)

/-- The character of the two halves of a pair. -/
def ofPair (high low : Nat) : CodePoint :=
  .char (Char.ofNat (0x10000 + (high - 0xd800) * 0x400 + (low - 0xdc00)))

/-- A character in the place of a code point; a half is shown as a character that is missing. -/
def shown : CodePoint → Char
  | .char c => c
  | .half _ _ => '\ufffd'

/-- How a code point is spelled inside the given quotes. -/
def spell (mark : Char) : CodePoint → List Char
  | .char c => Text.spell mark c
  | .half unit _ => ['\\', 'u'] ++ hexDigits 4 unit

end CodePoint

/-- The code points of a string. -/
def codePoints (s : String) : List CodePoint := s.toList.map .char

/-- The string with a character in the place of each code point. -/
def shownText (points : List CodePoint) : String := String.ofList (points.map CodePoint.shown)

/-- Code points between quotes. -/
def quotePoints (points : List CodePoint) : String :=
  let mark := quoteMark (points.map CodePoint.shown)
  String.ofList ([mark] ++ points.flatMap (CodePoint.spell mark) ++ [mark])

theorem shownText_codePoints (s : String) : shownText (codePoints s) = s := by
  rw [shownText, codePoints, List.map_map]
  exact (congrArg String.ofList (List.map_id s.toList)).trans String.ofList_toList

/-- A string is quoted like its code points. -/
theorem quotePoints_codePoints (s : String) : quotePoints (codePoints s) = quote s := by
  have hshown : (codePoints s).map CodePoint.shown = s.toList := by
    rw [codePoints, List.map_map]
    exact List.map_id s.toList
  rw [quotePoints, hshown, codePoints, List.flatMap_map]
  rfl

end LineScope.Text
