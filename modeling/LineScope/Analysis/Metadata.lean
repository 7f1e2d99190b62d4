import LineScope.Analysis.Definition
import LineScope.Ascending
import LineScope.Log
import LineScope.Node.Walk
import LineScope.Scope.State

/-!
# Metadata of a file

One walk over quoted code records, for each line, what is in scope there, and the lines of all
definitions.  On the way down it opens a scope at each definition and notes what the node brings
into scope; on the way up it closes the scope again.
-/

namespace LineScope

/-- What a walk has recorded so far, and the scopes that are open. -/
structure Metadata where
  scope : Scope
  definitions : Definitions
  contexts : Table Int Context
deriving DecidableEq, Repr

namespace Metadata

/-- The metadata in front of a file. -/
def start : Metadata := ⟨.start, .empty, .empty⟩

/-- The line of a definition. -/
def definitionLine? (metadata : Metadata) (key : DefinitionKey) : Option Int :=
  metadata.definitions.get? key

/-- The context recorded for a line. -/
def contextAt? (metadata : Metadata) (line : Int) : Option Context := metadata.contexts.get? line

/-- The recorded contexts by ascending lines. -/
def sortedContexts (metadata : Metadata) : List (Int × Context) :=
  (ascending metadata.contexts.keys).filterMap fun line =>
    (metadata.contexts.get? line).map fun context => (line, context)

/-- Records the context of a line. -/
def record (metadata : Metadata) (line : Int) (withVars : Bool) : Metadata :=
  { metadata with contexts := metadata.contexts.set line (metadata.scope.snapshot withVars) }

/-- The metadata with another scope state, if there is one. -/
def withScope (metadata : Metadata) (scope : Except ScopeError Scope) :
    Except ScopeError Metadata :=
  scope.map fun scope => { metadata with scope := scope }

end Metadata

/-! ### Shapes of definitions and directives -/

namespace Node

/-- The heads that define functions. -/
def functionHeads : List String := ["def", "defp"]

/-- The heads that define functions which run when code is compiled. -/
def compileTimeHeads : List String := ["defmacro", "defmacrop"]

/-- Whether a head defines a function of either kind. -/
def isDefinitionHead (name : String) : Bool :=
  functionHeads.contains name || compileTimeHeads.contains name

/-- The segments and the line of a module definition. -/
def moduleDefinition? : Node → Option (List String × Int)
  | .call "defmodule" (some [name, _]) (some line) => name.segments?.map fun s => (s, line)
  | _ => none

/-- A definition head without its guard. -/
def dropGuard : Node → Node
  | .call "when" (some (head :: _)) _ => head
  | head => head

/-- The arguments of a definition without a guard; a compile-time definition without a body gets
`nil` as its body. -/
def normalizedArgs (name : String) (args : List Node) : List Node :=
  let args :=
    match args with
    | [head] => if compileTimeHeads.contains name then [head, .literal .nil] else [head]
    | args => args
  match args with
  | [head, body] => [dropGuard head, body]
  | args => args

/-- A definition in the form that is analysed; other nodes are kept. -/
def normalizeDefinition : Node → Node
  | .call name args line =>
    if isDefinitionHead name then .call name (some (normalizedArgs name (args.getD []))) line
    else .call name args line
  | node => node

/-- A function that is defined: its name, its arity and the line of the definition. -/
structure FunctionDefinition where
  name : String
  arity : Nat
  line : Int
deriving DecidableEq, Repr

/-- The function that a definition head names. -/
def definedFunction? (line : Int) : Node → Option FunctionDefinition
  | .ident name _ _ => some ⟨name, 0, line⟩
  | .call name args _ => some ⟨name, (args.getD []).length, line⟩
  | _ => none

/-- The function that a normalized definition defines. -/
def functionDefinition? : Node → Option FunctionDefinition
  | .call name (some [head, _]) (some line) =>
    if isDefinitionHead name then definedFunction? line head else none
  | _ => none

/-- The first argument and the options of a directive on a line. -/
def directive? (name : String) : Node → Option (Node × Option Node)
  | .call head (some [target]) (some _) => if head = name then some (target, none) else none
  | .call head (some [target, options]) (some _) =>
    if head = name then some (target, some options) else none
  | _ => none

/-- The module that an import names. -/
def importTarget? (node : Node) : Option String :=
  (node.directive? "import").bind fun found => found.1.moduleName?

/-- The last segment of a module name. -/
def lastSegment (segments : List String) : Except ScopeError String :=
  match segments.getLast? with
  | some segment => .ok segment
  | none => .error .noSegment

/-- The short and the full name that an alias binds.  A short name that is no module name binds
nothing. -/
def aliasBinding? (node : Node) : Except ScopeError (Option (String × String)) :=
  match node.directive? "alias" with
  | none => .ok none
  | some (target, options) =>
    match target.segments? with
    | none => .ok none
    | some segments =>
      let full := modulePathName segments
      match options.bind (keyword? "as") with
      | none => (lastSegment segments).map fun short => some (short, full)
      | some short => .ok (short.moduleName?.map fun short => (short, full))

/-- The name of a variable: an identifier with a line that no other module has put there. -/
def variableName? : Node → Option String
  | .ident name (some _) none => some name
  | .ident name (some _) (some context) => if context = rootModule then some name else none
  | _ => none

end Node

/-! ### The walk -/

namespace Metadata

/-- Enters a module: its definition, the alias that makes it known in the module around it, and
its scope. -/
def enterModule (metadata : Metadata) (segments : List String) (line : Int) :
    Except ScopeError Metadata := do
  let path := metadata.scope.modulePath ++ segments
  let name := modulePathName path
  let scope ←
    if 1 < path.length then do
      let short ← Node.lastSegment segments
      metadata.scope.addAlias short name
    else .ok metadata.scope
  return ⟨scope.enter segments segments, metadata.definitions.set (.ofModule name) line,
    metadata.contexts⟩

/-- Enters a function: its definitions, the context of its line, and its scope. -/
def enterFunction (metadata : Metadata) (function : Node.FunctionDefinition) : Metadata :=
  let module := metadata.scope.currentModule
  let definitions :=
    (metadata.definitions.set (.ofArity module function.name function.arity)
      function.line).setDefault (.ofFunction module function.name) function.line
  let recorded := metadata.record function.line false
  ⟨metadata.scope.enter [function.name] [], definitions, recorded.contexts⟩

/-- The name of the innermost scope. -/
def scopeName (metadata : Metadata) : Except ScopeError String :=
  match metadata.scope.names with
  | name :: _ => .ok name
  | [] => .error .noScope

/-- Notes a variable, unless it is known, starts with an underscore, or has the name of the
scope. -/
def noteVariable (metadata : Metadata) (name : String) : Except ScopeError Metadata :=
  if metadata.scope.currentVars.contains name || name.toList.head? == some '_' then .ok metadata
  else do
    let scopeName ← metadata.scopeName
    if name = scopeName then .ok metadata else metadata.withScope (metadata.scope.addVar name)

/-- Records the context of a node's line, if it has one. -/
def recordLine (metadata : Metadata) (line : Option Int) (withVars : Bool) : Metadata :=
  match line with
  | some line => metadata.record line withVars
  | none => metadata

/-- What the walk notes about a node that opens no scope. -/
def noteNode (metadata : Metadata) (node : Node) : Except ScopeError Metadata := do
  match node.importTarget? with
  | some target =>
    let recorded := metadata.recordLine node.line false
    recorded.withScope (recorded.scope.addImport target)
  | none =>
    match ← node.aliasBinding? with
    | some (short, full) =>
      let recorded := metadata.recordLine node.line false
      recorded.withScope (recorded.scope.addAlias short full)
    | none =>
      match node.variableName? with
      | some name => metadata.noteVariable name
      | none => return metadata.recordLine node.line true

/-- What the walk does on the way down. -/
def visitDown : Node.Visit ScopeError Metadata := fun node metadata =>
  match node.moduleDefinition? with
  | some (segments, line) => do return (node, ← metadata.enterModule segments line)
  | none =>
    let node := node.normalizeDefinition
    match node.functionDefinition? with
    | some function => .ok (node, metadata.enterFunction function)
    | none => do return (node, ← metadata.noteNode node)

/-- What the walk does on the way up: it closes the scope of a definition. -/
def visitUp : Node.Visit ScopeError Metadata := fun node metadata =>
  match node.moduleDefinition? with
  | some (segments, _) => do
    return (node, ← metadata.withScope (metadata.scope.leave segments.length segments.length))
  | none =>
    match node.functionDefinition? with
    | some _ => do return (node, ← metadata.withScope (metadata.scope.leave 1 0))
    | none => .ok (node, metadata)

/-- The walk over a node.  Normalizing a definition makes no node deeper, so the depth of the node
is limit enough. -/
def walk (node : Node) (metadata : Metadata) : Except ScopeError (Node × Metadata) :=
  node.walk visitDown visitUp .tooDeep node.depth metadata

/-- Analyses quoted code: the code with its definitions normalized, and the metadata.  A walk that
does not close the scopes it has opened is an error. -/
def build (node : Node) : Except ScopeError (Node × Metadata) := do
  let (node, metadata) ← walk node .start
  if metadata.scope.isBalanced then return (node, metadata)
  else throw (.unbalanced metadata.scope)

/-- The component that notes finished walks. -/
def component : String := "exscope.analysis.metadata_builder"

/-- What is noted about a finished walk. -/
def builtMessage (metadata : Metadata) : String :=
  "built metadata: " ++ toString metadata.definitions.entries.length ++ " definitions, " ++
    toString metadata.contexts.entries.length ++ " lines"

end Metadata

end LineScope
