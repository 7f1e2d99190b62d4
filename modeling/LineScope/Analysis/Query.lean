import LineScope.Analysis.DocIndex
import LineScope.Analysis.Source

/-!
# Queries about a file

Where a function is defined, and what is in scope on a line.  A line that the metadata does not
know, such as one that is just being written, is masked and the source analysed again.
-/

namespace LineScope

/-- The component that notes queries. -/
def queryComponent : String := "exscope.analysis.context_query"

/-- The line on which a function is defined: in the file, else in the index of documentation. -/
def functionLine (index : DocIndex) (metadata : Option Metadata) (module function : String) :
    Logged (Option Int) :=
  match metadata with
  | none => .quiet none
  | some metadata =>
    match metadata.definitionLine? (.ofFunction module function) with
    | some line => .quiet (some line)
    | none =>
      match (index.functionLines module function).head? with
      | none => .quiet none
      | some line =>
        .note ⟨.debug, queryComponent, module ++ "." ++ function ++ ": definition line " ++
          toString line ++ " from doc index"⟩ (.quiet (some line))

/-- The context recorded for a line; without metadata it is the empty one. -/
def recordedContext? (metadata : Option Metadata) (line : Int) : Option Context :=
  match metadata with
  | none => some .empty
  | some metadata => metadata.contextAt? line

/-- The context of a line in a source in which that line is masked. -/
def maskedContext (source : String) (line : Int) : Except Escape (Logged Context) := do
  let masked ← analyze ⟨false, defaultBudget, Grammar.defaultFile⟩ (maskLine source line)
  return masked.map fun analysis =>
    match analysis.outcome with
    | .error _ => .empty
    | .ok finding => (finding.metadata.contextAt? line).getD .empty

/-- The context of a line, from the metadata or else from the source with the line masked. -/
def contextAt (source : String) (metadata : Option Metadata) (line : Int) :
    Except Escape (Logged Context) := do
  match recordedContext? metadata line with
  | some context => return .quiet context
  | none =>
    let masked ← maskedContext source line
    return .note ⟨.debug, queryComponent,
      "line " ++ toString line ++ " not in context table, rebuilding with marker"⟩ masked

end LineScope
