import LineScope.Number.Binary64
import LineScope.Table
import LineScope.Text.CodePoint

/-!
# JSON values

The texts of a value are rows of code points, because an escape can spell half of a pair of UTF-16
units: names that differ in such a half are two names.
-/

namespace LineScope

open LineScope.Text

/-- A JSON value.  Integers are kept apart from other numbers, and an object keeps the order of its
members. -/
inductive Json where
  | null
  | bool (value : Bool)
  | int (value : Int)
  | float (value : Number.Binary64)
  | string (value : List CodePoint)
  | array (items : List Json)
  | object (members : Table (List CodePoint) Json)

/-- The member with a name. -/
def Table.lookup (members : Table (List CodePoint) Json) (name : String) : Option Json :=
  members.get? (codePoints name)

namespace Json

/-- The value of a string. -/
def ofString (value : String) : Json := .string (codePoints value)

/-- The object with the given members, each of which has a name of its own. -/
def ofMembers (members : List (String × Json)) : Json :=
  .object ⟨members.map fun member => (codePoints member.1, member.2)⟩

end Json

end LineScope
