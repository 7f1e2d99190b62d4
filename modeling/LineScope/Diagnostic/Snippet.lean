import LineScope.Diagnostic.Basic
import LineScope.Text.Lines
import LineScope.Text.Space

/-!
# Rendered diagnostics

A diagnostic is shown with the line it is about, the line above that unless it is blank, and a
pointer.  It is first laid out as lines of spans, each with the part it plays; colours are chosen
only when the spans are written, so they cannot change the layout.
-/

namespace LineScope

open LineScope.Text

/-! ### Spans -/

/-- The part that a piece of text plays. -/
inductive Role where
  | severity | headline | gutter | pointer | remark
deriving DecidableEq, Repr

/-- The escape sequences that switch the colours of a part on. -/
def Role.codes : Role → String
  | .severity => "\x1b[1m\x1b[31m"
  | .headline => "\x1b[1m"
  | .gutter => "\x1b[1m\x1b[34m"
  | .pointer => "\x1b[1m\x1b[31m"
  | .remark => "\x1b[1m\x1b[36m"

/-- The escape sequence that switches colours off. -/
def colorReset : String := "\x1b[0m"

/-- A piece of text with its part; plain text plays none. -/
structure Span where
  role : Option Role
  text : String
deriving DecidableEq, Repr

/-- A piece of text with colours or without; an empty piece stays empty. -/
def Span.write (color : Bool) (span : Span) : String :=
  match span.role with
  | none => span.text
  | some role =>
    if color && !span.text.isEmpty then role.codes ++ span.text ++ colorReset else span.text

/-- A line of pieces. -/
def writeLine (color : Bool) (line : List Span) : String :=
  String.join (line.map (Span.write color))

/-- Several lines of pieces. -/
def writeLines (color : Bool) (lines : List (List Span)) : String :=
  String.intercalate "\n" (lines.map (writeLine color))

/-! ### Layout -/

/-- Text that plays no part. -/
def plainSpan (text : String) : Span := ⟨none, text⟩

/-- Text in the gutter. -/
def gutterSpan (text : String) : Span := ⟨some .gutter, text⟩

/-- A number of blanks. -/
def blanks (n : Nat) : String := String.ofList (List.replicate n ' ')

/-- A text with blanks on its left up to a width. -/
def rightAligned (width : Nat) (text : String) : String := blanks (width - text.length) ++ text

/-- A text that is there and not empty. -/
def nonEmpty? (text : Option String) : Option String := text.filter fun s => !s.isEmpty

/-- The characters that end the token under the pointer. -/
def tokenEnds : List Char := [' ', '\t', ';', ',', '(', ')', '[', ']', '\x7b', '\x7d']

/-- The width of the token at a column of a line. -/
def tokenWidth (line : List Char) (start : Nat) : Nat :=
  max 1 ((line.drop start).takeWhile fun c => !tokenEnds.contains c).length

/-- A line of a source by its index. -/
def lineAt? (lines : List (List Char)) (index : Int) : Option (List Char) :=
  if index < 0 then none else lines[index.toNat]?

theorem mem_of_lineAt? (lines : List (List Char)) (index : Int) (line : List Char)
    (h : lineAt? lines index = some line) : 0 ≤ index ∧ line ∈ lines := by
  unfold lineAt? at h
  split at h
  · cases h
  · exact ⟨by omega, List.mem_of_getElem? h⟩

namespace Diagnostic

/-- The severity, the code and the message. -/
def headline (diagnostic : Diagnostic) : List Span :=
  let severity :=
    match nonEmpty? diagnostic.code with
    | some code => "error[" ++ code ++ "]"
    | none => "error"
  [⟨some .severity, severity⟩, ⟨some .headline, ": " ++ diagnostic.message⟩]

/-- The width of the pointer: up to the end column if that is known and on the same line, else the
token under it. -/
def pointerWidth (location : Location) (line : List Char) (start : Nat) : Nat :=
  if location.column < location.endColumn ∧
      (location.endLine = 0 ∨ location.endLine = location.line) then
    max 1 (location.endColumn - location.column).toNat
  else tokenWidth line start

/-- The line of the pointer under a line of code. -/
def pointer (diagnostic : Diagnostic) (location : Location) (line : List Char) : String :=
  let start := (max location.column 1 - 1).toNat
  let marks := String.ofList (List.replicate (pointerWidth location line start) '^')
  let label :=
    match nonEmpty? diagnostic.label with
    | some label => " " ++ label
    | none => ""
  blanks start ++ marks ++ label

/-- A numbered line of code. -/
def codeLine (width : Nat) (number : Int) (line : List Char) : List Span :=
  [gutterSpan (rightAligned width (toString number) ++ " | "), plainSpan (String.ofList line)]

/-- The line above the one that a diagnostic is about, unless it is blank. -/
def lineAbove (width : Nat) (location : Location) (lines : List (List Char)) :
    List (List Span) :=
  match lineAt? lines (location.line - 2) with
  | some line => if isBlank line then [] else [codeLine width (location.line - 1) line]
  | none => []

/-- The lines of code with the pointer. -/
def snippet (diagnostic : Diagnostic) (location : Location) (width : Nat)
    (lines : List (List Char)) : List (List Span) :=
  let line := (lineAt? lines (location.line - 1)).getD []
  [[gutterSpan (blanks (width + 1) ++ "|")]] ++ lineAbove width location lines ++
    [codeLine width location.line line,
      [gutterSpan (blanks (width + 1) ++ "| "),
        ⟨some .pointer, diagnostic.pointer location line⟩]]

/-- Help and note. -/
def remarks (diagnostic : Diagnostic) (width : Nat) : List (List Span) :=
  let pad := blanks (width + 1)
  let remark := fun (kind : String) (text : Option String) =>
    (nonEmpty? text).toList.map fun text =>
      [⟨some .remark, pad ++ "= "⟩, ⟨some .headline, kind ++ ": "⟩, plainSpan text]
  let found := remark "help" diagnostic.help ++ remark "note" diagnostic.note
  if found.isEmpty then [] else [gutterSpan (pad ++ "|")] :: found

/-- The lines of a source that are shown. -/
def shownLines (source : String) : List (List Char) := (displayLines source.toList).map (·.text)

/-- The width of the line numbers of a diagnostic. -/
def numberWidth (diagnostic : Diagnostic) : Nat :=
  match diagnostic.location with
  | some location => (toString location.line).length
  | none => 1

/-- The place of a diagnostic and the code there, if its source is known. -/
def placeLines (diagnostic : Diagnostic) (sources : Sources) : List (List Span) :=
  match diagnostic.location with
  | none => [[gutterSpan " --> ", plainSpan "<unknown location>"]]
  | some location =>
    match sources.get? location.file with
    | none => [[gutterSpan " --> ", plainSpan location.text]]
    | some source =>
      let width := diagnostic.numberWidth
      [gutterSpan (blanks width ++ "--> "), plainSpan location.text] ::
        diagnostic.snippet location width (shownLines source)

/-- The lines of a diagnostic. -/
def layout (diagnostic : Diagnostic) (sources : Sources) : List (List Span) :=
  diagnostic.headline :: diagnostic.placeLines sources ++ diagnostic.remarks diagnostic.numberWidth

/-- A diagnostic as text. -/
def render (diagnostic : Diagnostic) (sources : Sources) (color : Bool) : String :=
  writeLines color (diagnostic.layout sources)

end Diagnostic

/-- The settings that switch colours off, in small letters. -/
def colorOffWords : List String := ["0", "false", "no", "never"]

/-- Whether colours are wanted: a non-empty `NO_COLOR` says no, else some values of the setting
do. -/
def colorEnabled (noColor setting : Option String) : Bool :=
  if (nonEmpty? noColor).isSome then false
  else
    let word := String.ofList ((setting.getD "").toList.map Char.toLower)
    !colorOffWords.contains word

end LineScope
