import LineScope.Json.Value
import LineScope.Number.Integer

/-!
# Index of documentation

Lines of definitions that are known from documentation rather than from the file.  An index is
given as an object that lists, for each module, entries of a function, an arity and a line.
-/

namespace LineScope

open LineScope.Number LineScope.Text

/-- Lines by module and function, in the order in which they were given. -/
structure DocIndex where
  lines : Table (List CodePoint × List CodePoint) (List Int)

namespace DocIndex

/-- Why a value is not an index. -/
inductive Error where
  /-- The whole is not an object. -/
  | notAnObject
  /-- A part has a type that it cannot have. -/
  | wrongType
  /-- A line is infinite. -/
  | infinite
  /-- A part has a value that it cannot have. -/
  | wrongValue (message : String)
deriving DecidableEq, Repr

/-- The index without entries. -/
def empty : DocIndex := ⟨.empty⟩

/-- The lines of the function at a key. -/
def linesAt (index : DocIndex) (key : List CodePoint × List CodePoint) : List Int :=
  (index.lines.get? key).getD []

/-- The lines of a function. -/
def functionLines (index : DocIndex) (module function : String) : List Int :=
  index.linesAt (codePoints module, codePoints function)

/-- Adds a line of a function. -/
def add (index : DocIndex) (module function : List CodePoint) (line : Int) : DocIndex :=
  ⟨index.lines.set (module, function) (index.linesAt (module, function) ++ [line])⟩

/-- The parts of a value that can be listed: the items of an array, the code points of a string, the
names of the members of an object. -/
def parts : Json → Except Error (List Json)
  | .array items => .ok items
  | .string value => .ok (value.map fun point => .string [point])
  | .object members => .ok (members.keys.map .string)
  | _ => .error .wrongType

/-- A finite number without its fraction. -/
def truncated (negative : Bool) (mantissa : Nat) (exponent : Int) : Int :=
  let size : Nat :=
    if 0 ≤ exponent then mantissa * twoPow exponent.toNat else mantissa / twoPow (-exponent).toNat
  if negative then -(size : Int) else size

/-- Reads a numeral.  A half that stands alone is part of no numeral, and neither is the character
that is shown in its place. -/
def readNumeral (points : List CodePoint) : Except Error Int :=
  (readInt (shownText points)).mapError fun
    | .malformed base _ => .wrongValue (malformedMessage base (quotePoints points))
    | fault => .wrongValue fault.message

/-- A numeral of characters is read like the string that they make. -/
theorem readNumeral_codePoints (text : String) :
    readNumeral (codePoints text) =
      (readInt text).mapError fun fault => .wrongValue fault.message := by
  rw [readNumeral, shownText_codePoints, quotePoints_codePoints]
  cases hread : readInt text with
  | ok value => rfl
  | error fault =>
    rcases readInt_error text fault hread with rfl | ⟨digits, rfl⟩
    · rfl
    · rfl

/-- The line that a value gives: a number without its fraction, or a numeral. -/
def lineOf : Json → Except Error Int
  | .int value => .ok value
  | .bool value => .ok (if value then 1 else 0)
  | .float (.finite negative mantissa exponent) => .ok (truncated negative mantissa exponent)
  | .float (.infinite _) => .error .infinite
  | .float .undefined => .error (.wrongValue "cannot convert float NaN to integer")
  | .string value => readNumeral value
  | _ => .error .wrongType

/-- Adds an entry of a module.  A function that is not named by a string can never be asked for; one
that is a list or an object cannot be a key at all. -/
def addEntry (index : DocIndex) (module : List CodePoint) (entry : List Json) :
    Except Error DocIndex := do
  match entry with
  | [function, _, line] =>
    match function with
    | .string name => return index.add module name (← lineOf line)
    | .array _ | .object _ => throw .wrongType
    | _ =>
      let _ ← lineOf line
      return index
  | _ =>
    if entry.length < 3 then
      throw (.wrongValue
        ("not enough values to unpack (expected 3, got " ++ toString entry.length ++ ")"))
    else throw (.wrongValue "too many values to unpack (expected 3)")

/-- Adds the entries of a module. -/
def addModule (index : DocIndex) (module : List CodePoint × List (List Json)) :
    Except Error DocIndex :=
  module.2.foldlM (fun index entry => index.addEntry module.1 entry) index

/-- The entries of a module as lists. -/
def moduleEntries (member : List CodePoint × Json) :
    Except Error (List CodePoint × List (List Json)) := do
  let entries ← parts member.2
  return (member.1, ← entries.mapM parts)

/-- The index of entries that have been listed. -/
def ofEntries (modules : List (List CodePoint × List (List Json))) : Except Error DocIndex :=
  modules.foldlM addModule empty

/-- The index that a value gives. -/
def ofJson : Json → Except Error DocIndex
  | .object members => do ofEntries (← members.entries.mapM moduleEntries)
  | _ => .error .notAnObject

end DocIndex

end LineScope
