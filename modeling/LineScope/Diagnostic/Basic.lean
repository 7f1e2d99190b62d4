import LineScope.Table

/-!
# Diagnostics

A message about a source, with the place it is about and remarks for the reader.
-/

namespace LineScope

/-- A place in a file.  Lines and columns count from one; an end of zero is not known. -/
structure Location where
  file : String
  line : Int
  column : Int
  endLine : Int
  endColumn : Int
deriving DecidableEq, Repr

namespace Location

/-- A place whose end is not known. -/
def point (file : String) (line column : Int) : Location := ⟨file, line, column, 0, 0⟩

/-- The text of a place. -/
def text (location : Location) : String :=
  location.file ++ ":" ++ toString location.line ++ ":" ++ toString location.column

end Location

/-- One diagnostic. -/
structure Diagnostic where
  message : String
  location : Option Location
  code : Option String
  help : Option String
  note : Option String
  label : Option String
deriving DecidableEq, Repr

/-- The texts of sources by the names of their files. -/
abbrev Sources := Table String String

/-! ### Codes -/

/-- The code of a syntax error. -/
def syntaxErrorCode : String := "E0001"

/-- The code of a block that is not closed. -/
def missingTerminatorCode : String := "E0002"

/-- The code of a path that names no source. -/
def invalidFileCode : String := "E0003"

/-- The code of a source that cannot be read. -/
def unreadableFileCode : String := "E0004"

/-- The code of a scope state that should not arise. -/
def brokenStateCode : String := "E9999"

end LineScope
