import LineScope.Ascending
import LineScope.Node.Walk
import LineScope.Number.Integer
import LineScope.Text.Lines

/-!
# Markers

A line that cannot be parsed is replaced by a call that can stand wherever an expression can.  Its
name holds the number of the line, so it can be found again in the quoted code.
-/

namespace LineScope

open LineScope.Text LineScope.Number

/-- What the name of a marker starts with. -/
def markerStart : String := "__exscope_marker_"

/-- The name of the marker for a line. -/
def markerName (line : Int) : String := markerStart ++ toString line ++ "__"

/-- The text that replaces a line. -/
def markerText (line : Int) : String := "(" ++ markerName line ++ "())"

/-- A source with one of its lines replaced by a marker.  Line ends become line feeds; a number that
is no line replaces nothing. -/
def maskLine (source : String) (line : Int) : String :=
  let lines := sourceLines source.toList
  let masked :=
    if 1 ≤ line ∧ line ≤ lines.length then lines.set (line.toNat - 1) (markerText line).toList
    else lines
  String.ofList (joinLines masked)

/-- The digits of a numeral as a number; a numeral beyond the digit limit is not read. -/
def readDigits (digits : List Char) : Except Number.Fault Int := readInt (String.ofList digits)

/-- The digits in the name of a marker. -/
def markerDigits? (name : String) : Option (List Char) :=
  let cs := name.toList
  if markerStart.toList.isPrefixOf cs then
    let rest := cs.drop markerStart.length
    let digits := rest.takeWhile isDecimal
    let ending := rest.drop digits.length
    if digits.isEmpty || !(ending == ['_', '_'] || ending == ['_', '_', '\n']) then none
    else some digits
  else none

/-- The line whose marker a node is. -/
def markerLine (node : Node) : Except Number.Fault (Option Int) :=
  match node with
  | .call name args _ =>
    match args.getD [], markerDigits? name with
    | [], some digits => (readDigits digits).map some
    | _, _ => .ok none
  | _ => .ok none

/-- The lines whose markers occur in a node, ascending. -/
def markerLines (node : Node) : Except Number.Fault (List Int) := do
  let found ← node.occurrences.mapM markerLine
  return ascending (found.filterMap id)

end LineScope
