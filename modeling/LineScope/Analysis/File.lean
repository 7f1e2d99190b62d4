import LineScope.Analysis.Source
import LineScope.File.Store

/-!
# Analysis of a file
-/

namespace LineScope

/-- The ending of the sources of another language. -/
def foreignEnding : String := ".erl"

/-- Whether a path may name a source: it is not empty and has no foreign ending. -/
def isAnalyzable (path : Option String) : Bool :=
  match path with
  | none => false
  | some path => !path.isEmpty && !(foreignEnding.toList.isSuffixOf path.toList)

/-- A failed analysis with a warning. -/
def warnedFailure (failure : Failure) (file : String) : Logged (Analysis Finding) :=
  .note ⟨.warning, analysisComponent, failure.text⟩ (.quiet (.failed failure file))

/-- Analyses the file behind a path. -/
def analyzeFile (files : Files) (path : Option String) (fix : Bool) (budget : Int) :
    Except Escape (Logged (Analysis Finding)) :=
  let name := path.getD "None"
  let invalid := warnedFailure (.invalidFile ("File \"" ++ name ++ "\" is not a valid elixir file")) name
  if isAnalyzable path then
    match files name with
    | .file bytes =>
      match readText bytes with
      | .ok source => analyze ⟨fix, budget, name⟩ source
      | .error fault =>
        .ok (warnedFailure (.unreadable ("Could not read \"" ++ name ++ "\": " ++ fault.message)) name)
    | _ => .ok invalid
  else .ok invalid

end LineScope
