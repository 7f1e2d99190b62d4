import LineScope.Scope.Frames
import LineScope.Text.Quoted
import LineScope.Node.Shape

/-!
# Lexical contexts

What is in scope on one line: the module, the imports, the aliases and the variables.
-/

namespace LineScope

open LineScope.Text

/-- The name of the outermost module. -/
def rootModule : String := "Elixir"

/-- The dotted name of a module path; the empty path is the outermost module. -/
def modulePathName (path : List String) : String :=
  if path.isEmpty then rootModule else joinSegments path

/-- What is in scope on one line. -/
structure Context where
  module : Option String
  imports : List String
  aliases : List (String × String)
  vars : List String
deriving DecidableEq, Repr

namespace Context

/-- The context of a line about which nothing is known. -/
def empty : Context := ⟨none, [], [], []⟩

/-- The full name behind a short one. -/
def resolveAlias (context : Context) (short : String) : Option String :=
  (context.aliases.reverse.find? fun entry => entry.1 = short).map (·.2)

/-- A pair of quoted texts. -/
def quotePair (entry : String × String) : String := parenthesized [quote entry.1, quote entry.2]

/-- The text of a context in log records. -/
def text (context : Context) : String :=
  let module :=
    match context.module with
    | none => "None"
    | some name => quote name
  "LexicalContext(module=" ++ module ++
    ", imports=" ++ parenthesized (context.imports.map quote) ++
    ", aliases=" ++ parenthesized (context.aliases.map quotePair) ++
    ", vars=" ++ parenthesized (context.vars.map quote) ++ ")"

end Context

end LineScope
