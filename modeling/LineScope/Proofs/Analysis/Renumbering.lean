import LineScope.Proofs.Analysis.Contexts

/-!
# Renumbered lines

The walk never computes with a line: it writes lines into its tables and looks keys up there.  So
when every line of a tree gets another number, and no two lines the same one, each visit does what
it did before and the tables come out with the new numbers in the places of the old ones.
-/

namespace LineScope

/-! ### Trees -/

namespace Node

variable (f : Int → Int)

mutual

/-- A tree with other numbers for its lines. -/
@[simp]
def renumbered : Node → Node
  | .call name args line => .call name (renumberedArgs args) (line.map f)
  | .apply head args line => .apply (renumbered head) (renumberedArgs args) (line.map f)
  | .pair left right => .pair (renumbered left) (renumbered right)
  | .list items => .list (renumberedAll items)
  | .literal value => .literal value
  | .ident name line context => .ident name (line.map f) context

@[simp]
def renumberedArgs : Option (List Node) → Option (List Node)
  | none => none
  | some args => some (renumberedAll args)

@[simp]
def renumberedAll : List Node → List Node
  | [] => []
  | node :: nodes => renumbered node :: renumberedAll nodes

end

@[simp]
theorem renumberedAll_eq (nodes : List Node) :
    renumberedAll f nodes = nodes.map (renumbered f) := by
  induction nodes with
  | nil => rfl
  | cons node nodes ih => rw [renumberedAll, ih, List.map_cons]

@[simp]
theorem renumberedArgs_eq (args : Option (List Node)) :
    renumberedArgs f args = args.map (List.map (renumbered f)) := by
  cases args <;> simp [renumberedArgs]

theorem children_renumbered (node : Node) :
    (node.renumbered f).children = node.children.map (renumbered f) := by
  cases node with
  | call name args line => cases args <;> simp [children]
  | apply head args line => cases args <;> simp [children]
  | _ => simp [children]

theorem withChildren_renumbered (node : Node) (nodes : List Node) :
    (node.renumbered f).withChildren (nodes.map (renumbered f)) =
      (node.withChildren nodes).renumbered f := by
  cases node with
  | call name args line => cases args <;> simp [withChildren]
  | apply head args line => cases args <;> cases nodes <;> simp [withChildren]
  | pair left right =>
    rcases nodes with _ | ⟨first, _ | ⟨second, rest⟩⟩ <;> simp [withChildren]
  | _ => simp [withChildren]

@[simp]
theorem line_renumbered (node : Node) : (node.renumbered f).line = node.line.map f := by
  cases node <;> simp [line]

theorem depth_renumbered (node : Node) : (node.renumbered f).depth = node.depth := by
  induction node using induction_depth with
  | step node ih =>
    have hchildren : ∀ nodes : List Node, (∀ child ∈ nodes, child.depth < node.depth) →
        depthList (nodes.map (renumbered f)) = depthList nodes := by
      intro nodes hnodes
      induction nodes with
      | nil => rfl
      | cons child nodes ihn =>
        simp [depthList, ih child (hnodes child List.mem_cons_self),
          ihn fun other ho => hnodes other (List.mem_cons_of_mem _ ho)]
    rw [depth_eq, depth_eq node, children_renumbered,
      hchildren _ fun child hc => depth_lt_of_mem_children node child hc]

/-! ### Shapes -/

@[simp]
theorem atomName?_renumbered (node : Node) : (node.renumbered f).atomName? = node.atomName? := by
  cases node <;> simp [atomName?]

@[simp]
theorem segments?_renumbered (node : Node) : (node.renumbered f).segments? = node.segments? := by
  cases node with
  | call name args line =>
    cases args <;> simp [segments?, List.mapM_map, Function.comp_def]
  | _ => simp [segments?]

@[simp]
theorem moduleName?_renumbered (node : Node) :
    (node.renumbered f).moduleName? = node.moduleName? := by
  simp [moduleName?]

@[simp]
theorem entryValue?_renumbered (key : String) (node : Node) :
    (node.renumbered f).entryValue? key = (node.entryValue? key).map (renumbered f) := by
  cases node with
  | pair left right =>
    by_cases h : left.atomName? = some key <;> simp [entryValue?, h]
  | _ => simp [entryValue?]

@[simp]
theorem keyword?_renumbered (key : String) (node : Node) :
    (node.renumbered f).keyword? key = (node.keyword? key).map (renumbered f) := by
  cases node with
  | list items =>
    simp only [renumbered, keyword?, renumberedAll_eq]
    induction items with
    | nil => rfl
    | cons item items ih =>
      rw [List.map_cons, List.findSome?_cons, List.findSome?_cons, entryValue?_renumbered, ih]
      cases item.entryValue? key <;> rfl
  | _ => simp [keyword?]

@[simp]
theorem variableName?_renumbered (node : Node) :
    (node.renumbered f).variableName? = node.variableName? := by
  cases node with
  | ident name line context => cases line <;> cases context <;> rfl
  | _ => simp [variableName?]

theorem moduleDefinition?_renumbered (node : Node) :
    (node.renumbered f).moduleDefinition? =
      node.moduleDefinition?.map fun found => (found.1, f found.2) := by
  cases node with
  | call name args line =>
    by_cases h : name = "defmodule"
    · subst h
      match args, line with
      | some [first, second], some line =>
        simp only [renumbered, renumberedArgs_eq, Option.map_some, List.map_cons, List.map_nil,
          moduleDefinition?, segments?_renumbered, Option.map_map, Function.comp_def]
      | some [_, _], none => simp [moduleDefinition?]
      | none, _ => simp [moduleDefinition?]
      | some [], _ => simp [moduleDefinition?]
      | some [_], _ => simp [moduleDefinition?]
      | some (_ :: _ :: _ :: _), _ => simp [moduleDefinition?]
    · rw [moduleDefinition?_eq_none _ _ _ h, renumbered, moduleDefinition?_eq_none _ _ _ h]
      rfl
  | _ => simp [moduleDefinition?]

theorem dropGuard_renumbered (node : Node) :
    (node.renumbered f).dropGuard = node.dropGuard.renumbered f := by
  cases node with
  | call name args line =>
    by_cases h : name = "when"
    · subst h
      match args with
      | some (head :: rest) => simp [dropGuard]
      | some [] => simp [dropGuard]
      | none => simp [dropGuard]
    · simp [dropGuard, h]
  | _ => simp [dropGuard]

theorem normalizedArgs_renumbered (name : String) (args : List Node) :
    normalizedArgs name (args.map (renumbered f)) =
      (normalizedArgs name args).map (renumbered f) := by
  match args with
  | [] => simp [normalizedArgs]
  | [head] =>
    by_cases h : compileTimeHeads.contains name = true
    · simp only [normalizedArgs, List.map_cons, List.map_nil, if_pos h, dropGuard_renumbered]
      rfl
    · simp only [normalizedArgs, List.map_cons, List.map_nil, if_neg h]
  | [head, body] => simp [normalizedArgs, dropGuard_renumbered]
  | _ :: _ :: _ :: _ => simp [normalizedArgs]

theorem normalizeDefinition_renumbered (node : Node) :
    (node.renumbered f).normalizeDefinition = node.normalizeDefinition.renumbered f := by
  cases node with
  | call name args line =>
    have hargs : (args.map (List.map (renumbered f))).getD [] =
        (args.getD []).map (renumbered f) := by
      cases args <;> simp
    by_cases h : isDefinitionHead name = true
    · simp [normalizeDefinition, h, hargs, normalizedArgs_renumbered]
    · simp [normalizeDefinition, h]
  | _ => simp [normalizeDefinition]

/-- A function definition on another line. -/
def FunctionDefinition.renumbered (function : FunctionDefinition) : FunctionDefinition :=
  { function with line := f function.line }

theorem definedFunction?_renumbered (line : Int) (node : Node) :
    (node.renumbered f).definedFunction? (f line) =
      (node.definedFunction? line).map (FunctionDefinition.renumbered f) := by
  cases node with
  | call name args line' =>
    cases args <;> simp [definedFunction?, FunctionDefinition.renumbered]
  | _ => simp [definedFunction?, FunctionDefinition.renumbered]

theorem functionDefinition?_renumbered (node : Node) :
    (node.renumbered f).functionDefinition? =
      node.functionDefinition?.map (FunctionDefinition.renumbered f) := by
  cases node with
  | call name args line =>
    match args, line with
    | some [head, body], some line =>
      by_cases h : isDefinitionHead name = true
      · simp [functionDefinition?, h, definedFunction?_renumbered]
      · simp [functionDefinition?, h]
    | some [_, _], none => simp [functionDefinition?]
    | none, _ => simp [functionDefinition?]
    | some [], _ => simp [functionDefinition?]
    | some [_], _ => simp [functionDefinition?]
    | some (_ :: _ :: _ :: _), _ => simp [functionDefinition?]
  | _ => simp [functionDefinition?]

theorem directive?_renumbered (name : String) (node : Node) :
    (node.renumbered f).directive? name =
      (node.directive? name).map fun found =>
        (found.1.renumbered f, found.2.map (renumbered f)) := by
  cases node with
  | call head args line =>
    match args, line with
    | some [target], some line =>
      by_cases h : head = name <;> simp [directive?, h]
    | some [target, options], some line =>
      by_cases h : head = name <;> simp [directive?, h]
    | some [_], none => simp [directive?]
    | some [_, _], none => simp [directive?]
    | none, _ => simp [directive?]
    | some [], _ => simp [directive?]
    | some (_ :: _ :: _ :: _), _ => simp [directive?]
  | _ => simp [directive?]

@[simp]
theorem importTarget?_renumbered (node : Node) :
    (node.renumbered f).importTarget? = node.importTarget? := by
  rw [importTarget?, importTarget?, directive?_renumbered]
  cases node.directive? "import" <;> simp

@[simp]
theorem aliasBinding?_renumbered (node : Node) :
    (node.renumbered f).aliasBinding? = node.aliasBinding? := by
  rw [aliasBinding?, aliasBinding?, directive?_renumbered]
  cases node.directive? "alias" with
  | none => rfl
  | some found =>
    obtain ⟨target, options⟩ := found
    have hshort : (options.map (renumbered f)).bind (keyword? "as") =
        (options.bind (keyword? "as")).map (renumbered f) := by
      cases options <;> simp
    simp only [Option.map_some, segments?_renumbered, hshort]
    cases target.segments? with
    | none => rfl
    | some segments => cases options.bind (keyword? "as") <;> simp

end Node

/-! ### Tables -/

namespace Table

variable {κ α : Type} [DecidableEq κ]

/-- A table with its keys changed. -/
def mapKeys (f : κ → κ) (table : Table κ α) : Table κ α :=
  ⟨table.entries.map fun entry => (f entry.1, entry.2)⟩

/-- A table with its values changed. -/
def mapValues (g : α → α) (table : Table κ α) : Table κ α :=
  ⟨table.entries.map fun entry => (entry.1, g entry.2)⟩

theorem set_mapKeys (f : κ → κ) (hf : Function.Injective f) (table : Table κ α) (key : κ)
    (value : α) : (table.mapKeys f).set (f key) value = (table.set key value).mapKeys f := by
  obtain ⟨entries⟩ := table
  simp only [mapKeys, set, mk.injEq]
  induction entries with
  | nil => rfl
  | cons entry entries ih => by_cases h : entry.1 = key <;> simp [setEntry, h, hf.eq_iff, ih]

theorem set_mapValues (g : α → α) (table : Table κ α) (key : κ) (value : α) :
    (table.mapValues g).set key (g value) = (table.set key value).mapValues g := by
  obtain ⟨entries⟩ := table
  simp only [mapValues, set, mk.injEq]
  induction entries with
  | nil => rfl
  | cons entry entries ih => by_cases h : entry.1 = key <;> simp [setEntry, h, ih]

theorem get?_mapValues (g : α → α) (table : Table κ α) (key : κ) :
    (table.mapValues g).get? key = (table.get? key).map g := by
  simp [get?, mapValues, List.find?_map, Function.comp_def]

theorem setDefault_mapValues (g : α → α) (table : Table κ α) (key : κ) (value : α) :
    (table.mapValues g).setDefault key (g value) = (table.setDefault key value).mapValues g := by
  by_cases h : (table.get? key).isSome <;>
    simp [setDefault, get?_mapValues, set_mapValues, h]

end Table

/-! ### Visits -/

namespace Metadata

/-- The same scopes, definitions on other lines, and contexts under other lines. -/
def renumbered (f : Int → Int) (metadata : Metadata) : Metadata :=
  ⟨metadata.scope, metadata.definitions.mapValues f, metadata.contexts.mapKeys f⟩

variable (f : Int → Int) (metadata : Metadata)

theorem withScope_renumbered (scope : Except ScopeError Scope) :
    (metadata.renumbered f).withScope scope = (metadata.withScope scope).map (renumbered f) := by
  cases scope <;> rfl

theorem enterModule_renumbered (segments : List String) (line : Int) :
    (metadata.renumbered f).enterModule segments (f line) =
      (metadata.enterModule segments line).map (renumbered f) := by
  have hdefinitions := metadata.definitions.set_mapValues f
    (.ofModule (modulePathName (metadata.scope.modulePath ++ segments))) line
  simp only [enterModule, renumbered, hdefinitions]
  by_cases hlong : 1 < (metadata.scope.modulePath ++ segments).length
  · simp only [if_pos hlong]
    cases Node.lastSegment segments with
    | error e => rfl
    | ok short =>
      simp only [bind, Except.bind]
      cases metadata.scope.addAlias short
        (modulePathName (metadata.scope.modulePath ++ segments)) <;> rfl
  · simp only [if_neg hlong]
    rfl

section Injective

variable (hf : Function.Injective f)

include hf

theorem record_renumbered (line : Int) (withVars : Bool) :
    (metadata.renumbered f).record (f line) withVars =
      (metadata.record line withVars).renumbered f := by
  simp [record, renumbered, Table.set_mapKeys f hf]

theorem recordLine_renumbered (line : Option Int) (withVars : Bool) :
    (metadata.renumbered f).recordLine (line.map f) withVars =
      (metadata.recordLine line withVars).renumbered f := by
  cases line with
  | none => rfl
  | some line => exact record_renumbered f metadata hf line withVars

theorem enterFunction_renumbered (function : Node.FunctionDefinition) :
    (metadata.renumbered f).enterFunction (function.renumbered f) =
      (metadata.enterFunction function).renumbered f := by
  have hrecord := record_renumbered f metadata hf function.line false
  simp only [enterFunction, Node.FunctionDefinition.renumbered, hrecord]
  simp [renumbered, Table.set_mapValues, Table.setDefault_mapValues]

omit hf in
theorem noteVariable_renumbered (name : String) :
    (metadata.renumbered f).noteVariable name =
      (metadata.noteVariable name).map (renumbered f) := by
  have hscope : (metadata.renumbered f).scope = metadata.scope := rfl
  rw [noteVariable, noteVariable, scopeName, scopeName, hscope]
  split
  · rfl
  · cases metadata.scope.names with
    | nil => rfl
    | cons inner outer =>
      simp only [bind, Except.bind]
      by_cases hinner : name = inner
      · rw [if_pos hinner, if_pos hinner]
        rfl
      · rw [if_neg hinner, if_neg hinner]
        exact withScope_renumbered f metadata (metadata.scope.addVar name)

theorem noteNode_renumbered (node : Node) :
    (metadata.renumbered f).noteNode (node.renumbered f) =
      (metadata.noteNode node).map (renumbered f) := by
  simp only [noteNode, Node.importTarget?_renumbered, Node.aliasBinding?_renumbered,
    Node.variableName?_renumbered, Node.line_renumbered, recordLine_renumbered f metadata hf]
  cases node.importTarget? with
  | some target => exact withScope_renumbered f (metadata.recordLine node.line false) _
  | none =>
    cases node.aliasBinding? with
    | error e => rfl
    | ok binding =>
      cases binding with
      | some entry => exact withScope_renumbered f (metadata.recordLine node.line false) _
      | none =>
        cases node.variableName? with
        | some name => exact noteVariable_renumbered f metadata name
        | none => rfl

end Injective

/-- A visit that does the same to renumbered nodes and metadata. -/
def KeepsLines (visit : Node.Visit ScopeError Metadata) : Prop :=
  ∀ node metadata, visit (node.renumbered f) (metadata.renumbered f) =
    (visit node metadata).map fun found => (found.1.renumbered f, found.2.renumbered f)

theorem keepsLines_visitDown (hf : Function.Injective f) : KeepsLines f visitDown := by
  intro node metadata
  simp only [visitDown, Node.moduleDefinition?_renumbered, Node.normalizeDefinition_renumbered,
    Node.functionDefinition?_renumbered]
  cases node.moduleDefinition? with
  | some found =>
    simp only [Option.map_some, enterModule_renumbered]
    cases metadata.enterModule found.1 found.2 <;> rfl
  | none =>
    cases node.normalizeDefinition.functionDefinition? with
    | some function => simp [enterFunction_renumbered f metadata hf, Except.map]
    | none =>
      simp only [Option.map_none, noteNode_renumbered f metadata hf]
      cases metadata.noteNode node.normalizeDefinition <;> rfl

theorem keepsLines_visitUp : KeepsLines f visitUp := by
  intro node metadata
  simp only [visitUp, Node.moduleDefinition?_renumbered, Node.functionDefinition?_renumbered,
    withScope_renumbered]
  cases node.moduleDefinition? with
  | some found =>
    simp only [Option.map_some, renumbered]
    cases metadata.scope.leave found.1.length found.1.length <;> rfl
  | none =>
    cases node.functionDefinition? with
    | some function =>
      simp only [Option.map_some, Option.map_none, renumbered]
      cases metadata.scope.leave 1 0 <;> rfl
    | none => rfl

theorem visitAll_keepsLines (visit : Node.Visit ScopeError Metadata) (h : KeepsLines f visit)
    (nodes : List Node) :
    Node.visitAll visit (nodes.map (Node.renumbered f)) (metadata.renumbered f) =
      (Node.visitAll visit nodes metadata).map fun found =>
        (found.1.map (Node.renumbered f), found.2.renumbered f) := by
  induction nodes generalizing metadata with
  | nil => rfl
  | cons node nodes ih =>
    simp only [List.map_cons, Node.visitAll, h node metadata]
    cases visit node metadata with
    | error e => rfl
    | ok first =>
      simp only [Except.map, bind, Except.bind, ih first.2]
      cases Node.visitAll visit nodes first.2 <;> rfl

theorem keepsLines_visitChildren (visit : Node.Visit ScopeError Metadata)
    (h : KeepsLines f visit) : KeepsLines f (Node.visitChildren visit) := by
  intro node metadata
  rw [Node.visitChildren_eq, Node.visitChildren_eq, Node.children_renumbered,
    visitAll_keepsLines f metadata visit h]
  cases Node.visitAll visit node.children metadata with
  | error e => rfl
  | ok found => simp [Except.map, Node.withChildren_renumbered]

theorem keepsLines_walk (hf : Function.Injective f) (limit : Nat) :
    KeepsLines f (Node.walk visitDown visitUp .tooDeep limit) := by
  induction limit with
  | zero =>
    intro node metadata
    rfl
  | succ limit ih =>
    intro node metadata
    simp only [Node.walk, keepsLines_visitDown f hf node metadata]
    cases visitDown node metadata with
    | error e => rfl
    | ok down =>
      simp only [Except.map, bind, Except.bind, keepsLines_visitChildren f _ ih down.1 down.2]
      cases Node.visitChildren (Node.walk visitDown visitUp .tooDeep limit) down.1 down.2 with
      | error e => rfl
      | ok behind => exact keepsLines_visitUp f behind.1 behind.2

/-- Other numbers for the lines of a tree give the same error, or the same scopes and the renumbered
tree, definitions and contexts. -/
theorem build_renumbered (f : Int → Int) (hf : Function.Injective f) (node : Node) :
    build (node.renumbered f) =
      (build node).map fun found => (found.1.renumbered f, found.2.renumbered f) := by
  have hwalk := keepsLines_walk f hf node.depth node .start
  have hstart : start.renumbered f = start := rfl
  rw [hstart] at hwalk
  rw [build, build, walk, walk, Node.depth_renumbered, hwalk]
  cases Node.walk visitDown visitUp .tooDeep node.depth node start with
  | error e => rfl
  | ok found =>
    have hscope : (found.2.renumbered f).scope = found.2.scope := rfl
    simp only [Except.map, bind, Except.bind, hscope]
    split <;> rfl

/-- Ten lines put in front of a file. -/
theorem build_renumbered_importedFile :
    Function.Injective (fun line : Int => line + 10) ∧
    ∃ tree metadata, build importedFile = .ok (tree, metadata) ∧
      metadata.definitions.get? (.ofArity "App.Web" "run" 1) = some 4 ∧
      ∃ shifted, build (importedFile.renumbered (· + 10)) =
          .ok (tree.renumbered (· + 10), shifted) ∧
        shifted.scope = metadata.scope ∧
        shifted.definitions.get? (.ofArity "App.Web" "run" 1) = some 14 ∧
        shifted.contexts.keys = [11, 13, 14, 15] := by
  have hinjective : Function.Injective (fun line : Int => line + 10) := by
    intro first second h
    dsimp only at h
    omega
  have hbuild := build_renumbered (· + 10) hinjective importedFile
  exact ⟨hinjective, _, _, rfl, rfl, _, hbuild, rfl, rfl, rfl⟩

end Metadata

end LineScope
