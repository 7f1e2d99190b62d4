import LineScope.Analysis.Metadata
import LineScope.Analysis.Recovery
import LineScope.Grammar.Parse

/-!
# Analysis of a source

From the text of a source to its quoted code and metadata: the text is parsed, the quoted code is
walked, and a failed parse is repeated with the broken line masked if that is asked for.
-/

namespace LineScope

/-- What an analysis finds: the quoted code and the metadata. -/
structure Finding where
  node : Node
  metadata : Metadata

/-- The component that notes analyses. -/
def analysisComponent : String := "exscope.analysis.driver"

/-- The number of recovery attempts unless another is asked for. -/
def defaultBudget : Int := 1

/-- How a source is analysed: whether to recover from a failed parse, with how many attempts, and
the name of the file. -/
structure Options where
  fix : Bool
  budget : Int
  file : String

/-- Notes the context of every line. -/
def contextRecords (file : String) (metadata : Metadata) : List LogRecord :=
  metadata.sortedContexts.map fun entry =>
    ⟨.debug, analysisComponent, file ++ ":" ++ toString entry.1 ++ ": " ++ entry.2.text⟩

/-- Analyses a source without recovery. -/
def analyzeOnce (file : String) (source : String) : Except Escape (Logged (Analysis Finding)) :=
  let parsed := Grammar.parse source file
  match parsed.value with
  | .error failure =>
    let warning : LogRecord :=
      ⟨.warning, analysisComponent, "Parse error in " ++ file ++ ":\n" ++ failure.render false⟩
    .ok ⟨.failed failure file, parsed.records ++ [warning]⟩
  | .ok node =>
    match Metadata.build node with
    | .error error => .error (.scope error)
    | .ok (node, metadata) =>
      let built : LogRecord := ⟨.debug, Metadata.component, metadata.builtMessage⟩
      .ok ⟨.ok ⟨node, metadata⟩ file,
        parsed.records ++ [built] ++ contextRecords file metadata⟩

/-- Analyses a source. -/
def analyze (options : Options) (source : String) : Except Escape (Logged (Analysis Finding)) := do
  let first ← analyzeOnce options.file source
  match first.value.outcome with
  | .ok _ => return first
  | .error failure =>
    if options.fix then
      let (analysis, trace) ←
        recover (fun _ text => analyzeOnce options.file text) source failure options.budget
          options.file
      return ⟨analysis, first.records ++ trace.records⟩
    else return first

end LineScope
