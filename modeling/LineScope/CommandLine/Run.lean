import LineScope.Analysis.File
import LineScope.Analysis.Query
import LineScope.CommandLine.Settings
import LineScope.Json.Reader
import LineScope.Json.Writer

/-!
# Running a command line

A run reads a file, analyses it and writes one document, or says what is wrong.
-/

namespace LineScope.CommandLine

open LineScope.Text

/-- What a run can see besides its arguments. -/
structure Environment where
  files : Files
  noColor : Option String
  colorSetting : Option String

/-- What a run writes and the code it ends with. -/
structure Output where
  exitCode : Nat
  stdout : String
  stderr : String
deriving DecidableEq, Repr

/-- Why a run ends without an output. -/
inductive Stop where
  | usage (cause : Usage)
  | escape (escape : Escape)
  | index (error : DocIndex.Error)
  /-- The quoted code holds an integer beyond the digit limit. -/
  | unwritable
deriving DecidableEq, Repr

/-- The code with which a run ends that has no output. -/
def Stop.exitCode : Stop → Nat
  | .usage cause => cause.exitCode
  | _ => 1

/-! ### Log records -/

/-- A record as it is shown: all of them in full, or the messages of warnings. -/
def shownRecord (verbose : Bool) (record : LogRecord) : String :=
  if verbose then
    record.severity.name ++ " " ++ record.component ++ ": " ++ record.message ++ "\n"
  else if record.severity = .warning then record.message ++ "\n"
  else ""

/-- The records as they are shown. -/
def shownRecords (verbose : Bool) (records : List LogRecord) : String :=
  String.join (records.map (shownRecord verbose))

/-! ### Documents -/

/-- A text or nothing. -/
def orNull : Option String → Json
  | some value => .ofString value
  | none => .null

/-- A number or nothing. -/
def numberOrNull : Option Int → Json
  | some value => .int value
  | none => .null

/-- A context as a document. -/
def contextJson (context : Context) : Json :=
  .ofMembers [("module", orNull context.module),
    ("imports", .array (context.imports.map .ofString)),
    ("aliases", .array (context.aliases.map fun entry =>
      .array [.ofString entry.1, .ofString entry.2])),
    ("vars", .array (context.vars.map .ofString))]

/-- A definition as a document. -/
def definitionJson (entry : DefinitionKey × Int) : Json :=
  .ofMembers [("module", .ofString entry.1.module), ("function", orNull entry.1.function),
    ("arity", numberOrNull entry.1.arity), ("line", .int entry.2)]

/-- The metadata of a file as a document. -/
def metadataJson (metadata : Metadata) (recoveredLines : List Int) : Json :=
  .ofMembers [("definitions", .array (metadata.definitions.entries.map definitionJson)),
    ("line_contexts", .ofMembers (metadata.sortedContexts.map fun entry =>
      (toString entry.1, contextJson entry.2))),
    ("recovered_lines", .array (recoveredLines.map .int))]

/-! ### The index of documentation -/

/-- Why an index is not loaded: it cannot be read, which is reported, or it has the wrong form. -/
inductive IndexFault where
  | unreadable (message : String)
  | malformed (error : DocIndex.Error)

/-- The index in the file at a path. -/
def loadIndex (files : Files) (path : String) : Except IndexFault DocIndex :=
  match files path with
  | .directory => .error (.unreadable ("[Errno 21] Is a directory: " ++ quote path))
  | .notADirectory => .error (.unreadable ("[Errno 20] Not a directory: " ++ quote path))
  | .missing =>
    if path.contains '\x00' then .error (.unreadable "embedded null byte")
    else .error (.unreadable ("[Errno 2] No such file or directory: " ++ quote path))
  | .file bytes =>
    match readText bytes with
    | .error fault => .error (.unreadable fault.message)
    | .ok text =>
      match Json.read text.toList with
      | .error error => .error (.unreadable (error.message text.toList))
      | .ok value =>
        match DocIndex.ofJson value with
        | .error (.wrongValue message) => .error (.unreadable message)
        | .error error => .error (.malformed error)
        | .ok index => .ok index

/-- The index that is asked for, or an empty one. -/
def indexOf (files : Files) (path : Option String) : Except IndexFault DocIndex :=
  match path with
  | none => .ok .empty
  | some path => loadIndex files path

/-! ### Runs -/

/-- The source of the file that was analysed. -/
def sourceOf (files : Files) (path : String) : String :=
  match files path with
  | .file bytes => (readText bytes).toOption.getD ""
  | _ => ""

/-- The answer to a question about a line. -/
def lineAnswer (files : Files) (path : String) (metadata : Metadata) (line : Option Int) :
    Except Stop (Logged (List (String × Json))) := do
  match line with
  | none => return .quiet []
  | some line =>
    let context ← (contextAt (sourceOf files path) (some metadata) line).mapError .escape
    return context.map fun context => [("line", .int line), ("context", contextJson context)]

/-- The answer to a question about a definition. -/
def definitionAnswer (index : DocIndex) (metadata : Metadata)
    (definition : Option (String × String)) : Logged (List (String × Json)) :=
  match definition with
  | none => .quiet []
  | some (module, function) =>
    (functionLine index (some metadata) module function).map fun line =>
      [("definition", .ofMembers [("module", .ofString module), ("function", .ofString function),
        ("line", numberOrNull line)])]

/-- Answers questions about a file that was analysed; `noted` is what has been written before. -/
def answerQuestions (environment : Environment) (settings : Settings) (path : String)
    (metadata : Metadata) (noted : String) : Except Stop Output :=
  match indexOf environment.files settings.docIndex with
  | .error (.unreadable message) =>
    .ok ⟨1, "", noted ++ "exscope: error: could not load doc index: " ++ message ++ "\n"⟩
  | .error (.malformed error) => .error (.index error)
  | .ok index => do
    let first ← lineAnswer environment.files path metadata settings.line
    let second := definitionAnswer index metadata settings.definition
    let document := Json.ofMembers (first.value ++ second.value)
    return ⟨0, document.text ++ "\n",
      noted ++ shownRecords settings.verbose (first.records ++ second.records)⟩

/-- Reports a failed analysis. -/
def reportFailure (environment : Environment) (failure : Failure) (noted : String) : Output :=
  let report := (Report.start .empty).addFailure failure
  ⟨1, "", noted ++ report.printed (colorEnabled environment.noColor environment.colorSetting)⟩

/-- Runs with settings for a file. -/
def runWith (environment : Environment) (settings : Settings) (path : String) :
    Except Stop Output := do
  let analysed ←
    (analyzeFile environment.files (some path) settings.fix settings.maxFixAttempts).mapError .escape
  let noted := shownRecords settings.verbose analysed.records
  match analysed.value.outcome with
  | .error failure => return reportFailure environment failure noted
  | .ok finding =>
    if settings.ast then
      if finding.node.isWritable then return ⟨0, finding.node.quoted ++ "\n", noted⟩
      else throw .unwritable
    else if settings.line.isNone && settings.definition.isNone then
      return ⟨0, (metadataJson finding.metadata analysed.value.recoveredLines).text ++ "\n", noted⟩
    else answerQuestions environment settings path finding.metadata noted

/-- Runs a command line. -/
def run (environment : Environment) (arguments : List String) : Except Stop Output := do
  let settings ← (settingsOf arguments).mapError .usage
  match settings.file with
  | none => throw (.usage .wrong)
  | some path => runWith environment settings path

end LineScope.CommandLine
