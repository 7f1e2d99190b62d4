import LineScope.Diagnostic.Snippet

/-!
# Failures

What can go wrong with a source, and the collection of diagnostics about it.
-/

namespace LineScope

/-- A line as a failure reports it: a number, or a mere flag, which names no line. -/
inductive LineMark where
  | number (line : Int)
  | flag (value : Bool)
deriving DecidableEq, Repr

/-- The kinds of failures. -/
inductive FailureKind where
  /-- A source that cannot be parsed; the line is known unless the fault shows only at the end. -/
  | parse (line : Option LineMark) (file : String)
  /-- Another fault in a source whose text is at hand. -/
  | source
  /-- A fault without a source text. -/
  | general
  /-- A path that names no source. -/
  | invalidFile
  /-- A source that cannot be read. -/
  | unreadable
  /-- A failure from elsewhere, of which only the message is known. -/
  | foreign
deriving DecidableEq, Repr

/-- A failure with what is known about it. -/
structure Failure where
  kind : FailureKind
  message : String
  location : Option Location
  code : Option String
  sourceText : Option String
  help : Option String
  note : Option String
  label : Option String
deriving DecidableEq, Repr

namespace Failure

/-- A failure with a message only. -/
def plain (kind : FailureKind) (code : Option String) (message : String)
    (location : Option Location) : Failure :=
  ⟨kind, message, location, code, none, none, none, none⟩

/-- A path that names no source. -/
def invalidFile (message : String) : Failure := plain .invalidFile (some invalidFileCode) message none

/-- A source that cannot be read. -/
def unreadable (message : String) : Failure := plain .unreadable (some unreadableFileCode) message none

/-- The line that a failure itself carries, which only a parse failure does. -/
def lineMark? (failure : Failure) : Option LineMark :=
  match failure.kind with
  | .parse line _ => line
  | _ => none

/-- Whether a failure is rendered with its source. -/
def isRendered (failure : Failure) : Bool :=
  match failure.kind with
  | .parse _ _ | .source => true
  | _ => false

/-- The diagnostic of a failure. -/
def diagnostic (failure : Failure) : Diagnostic :=
  ⟨failure.message, failure.location, failure.code, failure.help, failure.note, failure.label⟩

/-- The source that a failure carries for its place. -/
def sources (failure : Failure) : Sources :=
  match failure.location, failure.sourceText with
  | some location, some text => Table.empty.set location.file text
  | _, _ => Table.empty

/-- The rendered failure. -/
def render (failure : Failure) (color : Bool) : String :=
  failure.diagnostic.render failure.sources color

/-- The text of a failure: rendered with its source, or the place and the message. -/
def text (failure : Failure) : String :=
  if failure.isRendered then failure.render false
  else
    match failure.location with
    | none => failure.message
    | some location => location.text ++ ": " ++ failure.message

end Failure

/-! ### Reports -/

/-- Diagnostics and the sources that they refer to. -/
structure Report where
  sources : Sources
  diagnostics : List Diagnostic

namespace Report

/-- A report without diagnostics. -/
def start (sources : Sources) : Report := ⟨sources, []⟩

/-- Adds a diagnostic. -/
def add (report : Report) (diagnostic : Diagnostic) : Report :=
  { report with diagnostics := report.diagnostics ++ [diagnostic] }

/-- Adds a failure, and its source unless one is known for the file. -/
def addFailure (report : Report) (failure : Failure) : Report :=
  let sources :=
    match failure.location, failure.sourceText with
    | some location, some text => report.sources.setDefault location.file text
    | _, _ => report.sources
  ⟨sources, report.diagnostics ++ [failure.diagnostic]⟩

/-- One diagnostic against the sources of a report. -/
def render (report : Report) (diagnostic : Diagnostic) (color : Bool) : String :=
  diagnostic.render report.sources color

/-- The line that ends a report. -/
def summary (count : Nat) : List Span :=
  [⟨some .severity, "error"⟩,
    ⟨some .headline, ": analysis aborted due to " ++ toString count ++ " previous error" ++
      (if count = 1 then "" else "s")⟩]

/-- All diagnostics and the summary. -/
def renderAll (report : Report) (color : Bool) : String :=
  String.intercalate "\n\n"
    (report.diagnostics.map (report.render · color) ++
      [writeLine color (summary report.diagnostics.length)])

/-- Whether there are diagnostics. -/
def hasErrors (report : Report) : Bool := !report.diagnostics.isEmpty

/-- What is printed: nothing if there are no diagnostics. -/
def printed (report : Report) (color : Bool) : String :=
  if report.hasErrors then report.renderAll color ++ "\n" else ""

end Report

end LineScope
