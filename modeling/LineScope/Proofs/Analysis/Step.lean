import LineScope.Proofs.Analysis.Position

/-!
# One step of the walk

What the walk does on arriving at a node and on leaving it.  On arrival the scope state goes on to
that of the places below the node, and the two tables get at most one entry each; on leaving, the
scope state goes back to the scopes around the node.
-/

namespace LineScope

/-! ### Scope operations on open states -/

namespace Scope

theorem addImport_of_isOpen (scope : Scope) (name : String) (h : scope.IsOpen) :
    scope.addImport name = .ok { scope with imports := scope.imports.modifyHead (name :: ·) } := by
  cases hi : scope.imports with
  | nil => exact absurd hi h.imports
  | cons frame frames => simp [addImport, hi, FrameStack.prepend?]

theorem addAlias_of_isOpen (scope : Scope) (short full : String) (h : scope.IsOpen) :
    scope.addAlias short full =
      .ok { scope with aliases := scope.aliases.modifyHead ((short, full) :: ·) } := by
  cases hi : scope.aliases with
  | nil => exact absurd hi h.aliases
  | cons frame frames => simp [addAlias, hi, FrameStack.prepend?]

theorem addVar_of_isOpen (scope : Scope) (name : String) (h : scope.IsOpen) :
    scope.addVar name = .ok { scope with vars := scope.vars.modifyHead (name :: ·) } := by
  cases hi : scope.vars with
  | nil => exact absurd hi h.vars
  | cons frame frames => simp [addVar, hi, FrameStack.prepend?]

/-- Closing the innermost scope, whatever has been noted in it. -/
theorem leave_of_entered (path names segments outer : List String) (imports : FrameStack String)
    (aliases : FrameStack (String × String)) (vars : FrameStack String) (importFrame : Frame String)
    (aliasFrame : Frame (String × String)) (varFrame : Frame String) (hn : names ≠ [])
    (ho : outer ≠ []) :
    leave ⟨path ++ segments, names ++ outer, importFrame :: imports, aliasFrame :: aliases,
        varFrame :: vars⟩ names.length segments.length =
      .ok ⟨path, outer, imports, aliases, vars⟩ := by
  have hnl : 0 < names.length := List.length_pos_iff.mpr hn
  have hol : 0 < outer.length := List.length_pos_iff.mpr ho
  have hcond : ¬ (((names ++ outer).length : Int) ≤ (names.length : Int) ∨
      ((path ++ segments).length : Int) < (segments.length : Int)) := by
    simp only [List.length_append, Int.natCast_add]
    omega
  have hpath : (((path ++ segments).length : Int) - (segments.length : Int)).toNat =
      path.length := by
    simp only [List.length_append, Int.natCast_add]
    omega
  have hkept : keptNames (names ++ outer) (names.length : Int) = outer := by
    have hpos : (0 : Int) < (names.length : Int) := by omega
    rw [keptNames, if_pos hpos]
    simp
  rw [leave, if_neg hcond]
  simp only [FrameStack.pop?, hpath, hkept, List.take_left]

end Scope

/-! ### Which nodes do what -/

namespace Node

theorem normalizeDefinition_of_moduleDefinition? (node : Node) (segments : List String) (line : Int)
    (h : node.moduleDefinition? = some (segments, line)) : node.normalizeDefinition = node := by
  obtain ⟨name, body, rfl, _⟩ := moduleDefinition?_inv node segments line h
  rfl

theorem moduleDefinition?_normalizeDefinition (node : Node) :
    node.normalizeDefinition.moduleDefinition? = node.moduleDefinition? := by
  cases node with
  | call name args line =>
    by_cases hd : isDefinitionHead name = true
    · have hne : name ≠ "defmodule" := by
        intro he
        subst he
        exact absurd hd (by decide)
      simp only [normalizeDefinition, if_pos hd]
      rw [moduleDefinition?_eq_none _ _ _ hne, moduleDefinition?_eq_none _ _ _ hne]
    · simp only [normalizeDefinition, if_neg hd]
  | apply head args line => rfl
  | pair left right => rfl
  | list items => rfl
  | literal value => rfl
  | ident name line context => rfl

theorem functionDefinition?_inv (node : Node) (function : FunctionDefinition)
    (h : node.functionDefinition? = some function) :
    ∃ name head body, node = .call name (some [head, body]) (some function.line) ∧
      isDefinitionHead name = true := by
  unfold functionDefinition? at h
  split at h
  · rename_i name head body line
    split at h
    · rename_i hd
      refine ⟨name, head, body, ?_, hd⟩
      unfold definedFunction? at h
      split at h
      · cases h
        rfl
      · cases h
        rfl
      · cases h
    · cases h
  · cases h

theorem directive?_eq_none (directive name : String) (args : Option (List Node))
    (line : Option Int) (h : name ≠ directive) :
    (call name args line).directive? directive = none := by
  unfold directive?
  split
  · rename_i he
    cases he
    exact if_neg h
  · rename_i he
    cases he
    exact if_neg h
  · rfl

theorem directive?_inv (name : String) (node target : Node) (options : Option Node)
    (h : node.directive? name = some (target, options)) :
    ∃ args line, node = .call name args (some line) := by
  unfold directive? at h
  split at h
  · split at h
    · rename_i he
      subst he
      exact ⟨_, _, rfl⟩
    · cases h
  · split at h
    · rename_i he
      subst he
      exact ⟨_, _, rfl⟩
    · cases h
  · cases h

theorem aliasBinding?_of_directive? (node : Node) (h : node.directive? "alias" = none) :
    node.aliasBinding? = .ok none := by
  rw [aliasBinding?, h]

theorem importTarget?_of_directive? (node : Node) (h : node.directive? "import" = none) :
    node.importTarget? = none := by
  rw [importTarget?, h]
  rfl

/-- What a node is not, when it is a call of a name that is neither a directive nor a module
definition. -/
theorem plain_call (name : String) (args : Option (List Node)) (line : Option Int)
    (hi : name ≠ "import") (ha : name ≠ "alias") :
    (call name args line).importTarget? = none ∧ (call name args line).aliasBinding? = .ok none ∧
      (call name args line).variableName? = none :=
  ⟨importTarget?_of_directive? _ (directive?_eq_none _ _ _ _ hi),
    aliasBinding?_of_directive? _ (directive?_eq_none _ _ _ _ ha), rfl⟩

theorem of_moduleDefinition? (node : Node) (segments : List String) (line : Int)
    (h : node.moduleDefinition? = some (segments, line)) :
    node.functionDefinition? = none ∧ node.importTarget? = none ∧
      node.aliasBinding? = .ok none ∧ node.variableName? = none := by
  obtain ⟨name, body, rfl, _⟩ := moduleDefinition?_inv node segments line h
  exact ⟨rfl, plain_call "defmodule" _ _ (by decide) (by decide)⟩

theorem of_functionDefinition? (node : Node) (function : FunctionDefinition)
    (h : node.functionDefinition? = some function) :
    node.moduleDefinition? = none ∧ node.line = some function.line ∧ node.importTarget? = none ∧
      node.aliasBinding? = .ok none ∧ node.variableName? = none := by
  obtain ⟨name, head, body, rfl, hd⟩ := functionDefinition?_inv node function h
  have hne : ∀ other : String, isDefinitionHead other = false → name ≠ other := by
    intro other ho he
    subst he
    rw [hd] at ho
    cases ho
  exact ⟨moduleDefinition?_eq_none _ _ _ (hne "defmodule" (by decide)), rfl,
    plain_call name _ _ (hne "import" (by decide)) (hne "alias" (by decide))⟩

theorem of_directive? (name : String) (node target : Node) (options : Option Node)
    (hname : isDefinitionHead name = false) (hmodule : name ≠ "defmodule")
    (h : node.directive? name = some (target, options)) :
    node.moduleDefinition? = none ∧ node.functionDefinition? = none ∧ node.variableName? = none ∧
      ∀ other, name ≠ other → node.directive? other = none := by
  obtain ⟨args, line, rfl⟩ := directive?_inv name node target options h
  refine ⟨moduleDefinition?_eq_none _ _ _ hmodule, ?_, rfl, ?_⟩
  · unfold functionDefinition?
    split
    · rename_i he
      cases he
      rw [hname]
      rfl
    · rfl
  · intro other ho
    exact directive?_eq_none other name args _ ho

theorem of_importTarget? (node : Node) (target : String) (h : node.importTarget? = some target) :
    ∃ line, node.line = some line ∧ node.moduleDefinition? = none ∧
      node.functionDefinition? = none ∧ node.variableName? = none ∧ node.aliasBinding? = .ok none := by
  obtain ⟨found, hdir, _⟩ := Option.bind_eq_some_iff.mp h
  obtain ⟨hm, hf, hn, hother⟩ := of_directive? "import" node found.1 found.2 (by decide) (by decide)
    hdir
  obtain ⟨args, line, rfl⟩ := directive?_inv _ _ _ _ hdir
  exact ⟨line, rfl, hm, hf, hn, aliasBinding?_of_directive? _ (hother "alias" (by decide))⟩

theorem of_aliasBinding? (node : Node) (entry : String × String)
    (h : node.aliasBinding? = .ok (some entry)) :
    ∃ line, node.line = some line ∧ node.moduleDefinition? = none ∧
      node.functionDefinition? = none ∧ node.variableName? = none ∧ node.importTarget? = none := by
  cases hdir : node.directive? "alias" with
  | none =>
    rw [aliasBinding?_of_directive? node hdir] at h
    cases h
  | some found =>
    obtain ⟨hm, hf, hn, hother⟩ := of_directive? "alias" node found.1 found.2 (by decide)
      (by decide) hdir
    obtain ⟨args, line, rfl⟩ := directive?_inv _ _ _ _ hdir
    exact ⟨line, rfl, hm, hf, hn, importTarget?_of_directive? _ (hother "import" (by decide))⟩

/-- The line whose context is recorded on arrival at a node: the line of every node but a module
definition and a variable. -/
def recordedLine? (node : Node) : Option Int :=
  if node.moduleDefinition?.isSome || node.variableName?.isSome then none else node.line

/-- Whether the context that is recorded at a node leaves out the variables: at a definition and at
a directive. -/
def hidesVars (node : Node) : Bool :=
  node.functionName?.isSome || node.importTarget?.isSome || node.binding?.isSome

end Node

/-! ### The tables -/

namespace Metadata

/-- The table of contexts behind an arrival at a node. -/
def writeContext (scope : Scope) (node : Node) (contexts : Table Int Context) :
    Table Int Context :=
  match node.recordedLine? with
  | some line => contexts.set line (scope.snapshot (!node.hidesVars))
  | none => contexts

/-- The table of definitions behind an arrival at a node. -/
def writeDefinitions (scope : Scope) (node : Node) (definitions : Definitions) : Definitions :=
  match node.moduleDefinition? with
  | some (segments, line) =>
    definitions.set (.ofModule (modulePathName (scope.modulePath ++ segments))) line
  | none =>
    match node.functionDefinition? with
    | some function =>
      (definitions.set (.ofArity scope.currentModule function.name function.arity)
        function.line).setDefault (.ofFunction scope.currentModule function.name) function.line
    | none => definitions

/-- What the walk does on arrival at a node that is in its normal form. -/
def arrive (metadata : Metadata) (node : Node) : Except ScopeError Metadata :=
  match node.moduleDefinition? with
  | some (segments, line) => metadata.enterModule segments line
  | none =>
    match node.functionDefinition? with
    | some function => .ok (metadata.enterFunction function)
    | none => metadata.noteNode node

theorem visitDown_eq (node : Node) (metadata : Metadata) :
    visitDown node metadata =
      (metadata.arrive node.normalizeDefinition).map fun next => (node.normalizeDefinition, next) := by
  rw [visitDown, arrive, Node.moduleDefinition?_normalizeDefinition]
  cases hm : node.moduleDefinition? with
  | some found =>
    obtain ⟨segments, line⟩ := found
    rw [Node.normalizeDefinition_of_moduleDefinition? node segments line hm]
    dsimp only
    cases metadata.enterModule segments line <;> rfl
  | none =>
    dsimp only
    cases hf : node.normalizeDefinition.functionDefinition? with
    | some function => rfl
    | none =>
      dsimp only
      cases metadata.noteNode node.normalizeDefinition <;> rfl

end Metadata

/-! ### Arrivals -/

namespace Place

theorem addImport_eq_id (place : Place) (h : place.node.importTarget? = none) :
    place.addImport = id := by
  funext frame
  simp [addImport, h]

theorem addAlias_eq_id (outer : List String) (place : Place) (h : place.aliasEntry outer = none) :
    place.addAlias outer = id := by
  funext frame
  simp [addAlias, h]

theorem addAlias_eq_cons (outer : List String) (place : Place) (entry : String × String)
    (h : place.aliasEntry outer = some entry) : place.addAlias outer = (entry :: ·) := by
  funext frame
  simp [addAlias, h]

theorem addVar_eq_id (outer : List String) (place : Place) (h : place.node.variableName? = none) :
    place.addVar outer = id := by
  funext frame
  simp [addVar, h]

theorem aliasEntry_eq_binding? (outer : List String) (place : Place)
    (h : place.node.moduleDefinition? = none) : place.aliasEntry outer = place.node.binding? := by
  rw [aliasEntry, h]

end Place

namespace Metadata

section Arrivals

variable (base : Scope) (visited : List Place) (place : Place) (metadata : Metadata)

theorem arrive_module (segments : List String) (line : Int) (hb : base.IsOpen)
    (hscope : metadata.scope = scopeAt base visited place.scopes) (hw : place.WellPlaced)
    (hv : Fresh visited place.path)
    (hm : place.node.moduleDefinition? = some (segments, line)) (hs : segments ≠ []) :
    metadata.arrive place.node =
      .ok ⟨scopeAt base (visited ++ [place]) place.inner,
        writeDefinitions metadata.scope place.node metadata.definitions,
        writeContext metadata.scope place.node metadata.contexts⟩ := by
  obtain ⟨-, hi, -, hn⟩ := Node.of_moduleDefinition? _ _ _ hm
  have hd : place.node.isDefinition = true := by simp [Node.isDefinition, hm]
  have hcontexts : writeContext metadata.scope place.node metadata.contexts = metadata.contexts := by
    simp [writeContext, Node.recordedLine?, hm]
  have hnames : place.enclosure.names.reverse = segments := by
    simp [Enclosure.names, Place.enclosure, hm]
  have hsegments : place.enclosure.segments = segments := by
    simp [Enclosure.segments, Place.enclosure, hm]
  obtain ⟨short, hshort⟩ : ∃ short, segments.getLast? = some short :=
    ⟨_, List.getLast?_eq_some_getLast hs⟩
  have hopen : metadata.scope.IsOpen := hscope ▸ scopeAt_isOpen base visited place.scopes hb
  have hpath : metadata.scope.modulePath ++ segments = place.fullPath base.modulePath segments := by
    rw [hscope]
    rfl
  rw [hcontexts, scopeAt_inner base visited place hd hv hw, hnames, hsegments]
  simp only [arrive, hm, enterModule, writeDefinitions]
  by_cases hlong : 1 < (metadata.scope.modulePath ++ segments).length
  · have hentry : place.aliasEntry base.modulePath =
        some (short, modulePathName (metadata.scope.modulePath ++ segments)) := by
      rw [hpath] at hlong ⊢
      simp only [Place.aliasEntry, hm, if_pos hlong, hshort, Option.map_some]
    rw [scopeAt_snoc base visited place hw, Place.addImport_eq_id place hi,
      Place.addVar_eq_id _ place hn, Place.addAlias_eq_cons _ place _ hentry, if_pos hlong]
    simp only [Node.lastSegment, hshort, bind, Except.bind,
      Scope.addAlias_of_isOpen _ _ _ hopen, pure, Except.pure, ← hscope, List.modifyHead_id, id]
  · have hentry : place.aliasEntry base.modulePath = none := by
      rw [hpath] at hlong
      simp only [Place.aliasEntry, hm, if_neg hlong]
    rw [scopeAt_snoc base visited place hw, Place.addImport_eq_id place hi,
      Place.addVar_eq_id _ place hn, Place.addAlias_eq_id _ place hentry, if_neg hlong]
    simp only [bind, Except.bind, pure, Except.pure, ← hscope, List.modifyHead_id, id]

theorem arrive_function (function : Node.FunctionDefinition)
    (hscope : metadata.scope = scopeAt base visited place.scopes) (hw : place.WellPlaced)
    (hv : Fresh visited place.path)
    (hf : place.node.functionDefinition? = some function) :
    metadata.arrive place.node =
      .ok ⟨scopeAt base (visited ++ [place]) place.inner,
        writeDefinitions metadata.scope place.node metadata.definitions,
        writeContext metadata.scope place.node metadata.contexts⟩ := by
  obtain ⟨hm, hl, hi, ha, hn⟩ := Node.of_functionDefinition? _ _ hf
  have hname : place.node.functionName? = some function.name := by simp [Node.functionName?, hf]
  have hd : place.node.isDefinition = true := by simp [Node.isDefinition, hname]
  have hnames : place.enclosure.names.reverse = [function.name] := by
    simp [Enclosure.names, Place.enclosure, hm, hname]
  have hsegments : place.enclosure.segments = [] := by
    simp [Enclosure.segments, Place.enclosure, hm]
  have hentry : place.aliasEntry base.modulePath = none := by
    rw [Place.aliasEntry_eq_binding? _ place hm, Node.binding?, ha]
    rfl
  have hcontexts : writeContext metadata.scope place.node metadata.contexts =
      metadata.contexts.set function.line (metadata.scope.snapshot false) := by
    simp [writeContext, Node.recordedLine?, Node.hidesVars, hm, hn, hl, hname]
  rw [hcontexts, scopeAt_inner base visited place hd hv hw, hnames, hsegments,
    scopeAt_snoc base visited place hw, Place.addImport_eq_id place hi,
    Place.addVar_eq_id _ place hn, Place.addAlias_eq_id _ place hentry]
  simp only [arrive, hm, hf, enterFunction, writeDefinitions, record, ← hscope, List.modifyHead_id,
    id]

theorem noteVariable_eq (name : String) (hb : base.IsOpen)
    (hscope : metadata.scope = scopeAt base visited place.scopes)
    (hn : place.node.variableName? = some name) :
    metadata.noteVariable name =
      .ok { metadata with
        scope.vars := metadata.scope.vars.modifyHead (place.addVar base.names) } := by
  have hopen : metadata.scope.IsOpen := hscope ▸ scopeAt_isOpen base visited place.scopes hb
  have hnames : metadata.scope.names = place.scopes.flatMap Enclosure.names ++ base.names := by
    rw [hscope]
    rfl
  obtain ⟨frame, frames, hvars⟩ := List.exists_cons_of_ne_nil hopen.vars
  obtain ⟨first, rest, hfirst⟩ := List.exists_cons_of_ne_nil hopen.names
  have hcurrent : metadata.scope.currentVars = frame := by
    simp [Scope.currentVars, FrameStack.innermost, hvars]
  have hhead : (place.scopes.flatMap Enclosure.names ++ base.names).head? = some first := by
    rw [← hnames, hfirst]
    rfl
  have hadd : place.addVar base.names frame =
      if frame.contains name || name.toList.head? == some '_' || some first == some name then frame
      else name :: frame := by
    simp only [Place.addVar, hn, hhead]
  rw [hvars, List.modifyHead_cons, hadd, noteVariable, hcurrent]
  by_cases hknown : (frame.contains name || name.toList.head? == some '_') = true
  · simp only [hknown, if_true, Bool.true_or, ← hvars]
  · rw [if_neg hknown, scopeName, hfirst]
    rw [Bool.not_eq_true] at hknown
    simp only [hknown, Bool.false_or]
    by_cases hself : name = first
    · simp [hself, bind, Except.bind, ← hvars]
    · have hne : (some first == some name) = false := by simpa using Ne.symm hself
      simp only [hne, hself, if_false, Bool.false_eq_true, bind, Except.bind, withScope,
        Scope.addVar_of_isOpen _ _ hopen, Except.map, hvars, List.modifyHead_cons]

/-- The metadata behind an arrival at a node that opens no scope. -/
def noted : Metadata :=
  ⟨⟨metadata.scope.modulePath, metadata.scope.names,
      metadata.scope.imports.modifyHead place.addImport,
      metadata.scope.aliases.modifyHead (place.addAlias base.modulePath),
      metadata.scope.vars.modifyHead (place.addVar base.names)⟩,
    metadata.definitions, writeContext metadata.scope place.node metadata.contexts⟩

theorem noteNode_import (target : String) (hopen : metadata.scope.IsOpen)
    (hi : place.node.importTarget? = some target) :
    metadata.noteNode place.node = .ok (noted base place metadata) := by
  obtain ⟨line, hline, hm, _, hn, ha⟩ := Node.of_importTarget? _ _ hi
  have hentry : place.aliasEntry base.modulePath = none := by
    rw [Place.aliasEntry_eq_binding? _ place hm, Node.binding?, ha]
    rfl
  have hcontexts : writeContext metadata.scope place.node metadata.contexts =
      metadata.contexts.set line (metadata.scope.snapshot false) := by
    simp [writeContext, Node.recordedLine?, Node.hidesVars, hm, hn, hline, hi]
  have hadd : place.addImport = (target :: ·) := by
    funext frame
    simp [Place.addImport, hi]
  rw [noted, hcontexts, hadd, Place.addAlias_eq_id _ place hentry, Place.addVar_eq_id _ place hn]
  simp only [noteNode, hi, hline, recordLine, record, withScope,
    Scope.addImport_of_isOpen _ _ hopen, Except.map, List.modifyHead_id, id]

theorem noteNode_alias (short full : String) (hopen : metadata.scope.IsOpen)
    (ha : place.node.aliasBinding? = .ok (some (short, full))) :
    metadata.noteNode place.node = .ok (noted base place metadata) := by
  obtain ⟨line, hline, hm, _, hn, hi⟩ := Node.of_aliasBinding? _ _ ha
  have hbinding : place.node.binding? = some (short, full) := by
    rw [Node.binding?, ha]
    rfl
  have hentry := (Place.aliasEntry_eq_binding? base.modulePath place hm).trans hbinding
  have hcontexts : writeContext metadata.scope place.node metadata.contexts =
      metadata.contexts.set line (metadata.scope.snapshot false) := by
    simp [writeContext, Node.recordedLine?, Node.hidesVars, hm, hn, hline, hbinding]
  rw [noted, hcontexts, Place.addAlias_eq_cons _ place _ hentry, Place.addVar_eq_id _ place hn,
    Place.addImport_eq_id place hi]
  simp only [noteNode, hi, ha, hline, recordLine, record, withScope, bind, Except.bind,
    Scope.addAlias_of_isOpen _ _ _ hopen, Except.map, List.modifyHead_id, id]

theorem noteNode_plain (hb : base.IsOpen)
    (hscope : metadata.scope = scopeAt base visited place.scopes)
    (hm : place.node.moduleDefinition? = none) (hname : place.node.functionName? = none)
    (hi : place.node.importTarget? = none) (ha : place.node.aliasBinding? = .ok none) :
    metadata.noteNode place.node = .ok (noted base place metadata) := by
  have hbinding : place.node.binding? = none := by
    rw [Node.binding?, ha]
    rfl
  have hentry := (Place.aliasEntry_eq_binding? base.modulePath place hm).trans hbinding
  rw [noted, Place.addAlias_eq_id _ place hentry, Place.addImport_eq_id place hi]
  simp only [noteNode, hi, ha, bind, Except.bind, List.modifyHead_id, id]
  cases hn : place.node.variableName? with
  | some name =>
    have hcontexts : writeContext metadata.scope place.node metadata.contexts =
        metadata.contexts := by
      simp [writeContext, Node.recordedLine?, hn]
    dsimp only
    rw [hcontexts, noteVariable_eq base visited place metadata name hb hscope hn]
  | none =>
    rw [Place.addVar_eq_id _ place hn]
    have hvars : place.node.hidesVars = false := by simp [Node.hidesVars, hname, hi, hbinding]
    have hrecorded : place.node.recordedLine? = place.node.line := by
      simp [Node.recordedLine?, hm, hn]
    simp only [writeContext, hrecorded, hvars, List.modifyHead_id, id, pure, Except.pure]
    cases place.node.line <;> rfl

theorem arrive_note (hb : base.IsOpen)
    (hscope : metadata.scope = scopeAt base visited place.scopes) (hw : place.WellPlaced)
    (hm : place.node.moduleDefinition? = none) (hf : place.node.functionDefinition? = none)
    (hok : place.node.aliasBinding?.isOk = true) :
    metadata.arrive place.node =
      .ok ⟨scopeAt base (visited ++ [place]) place.inner,
        writeDefinitions metadata.scope place.node metadata.definitions,
        writeContext metadata.scope place.node metadata.contexts⟩ := by
  have hopen : metadata.scope.IsOpen := hscope ▸ scopeAt_isOpen base visited place.scopes hb
  have hname : place.node.functionName? = none := by simp [Node.functionName?, hf]
  have hinner : place.inner = place.scopes := by
    simp [Place.inner, Node.isDefinition, hm, hname]
  have hdefinitions : writeDefinitions metadata.scope place.node metadata.definitions =
      metadata.definitions := by
    simp [writeDefinitions, hm, hf]
  rw [hinner, hdefinitions, scopeAt_snoc base visited place hw, ← hscope]
  simp only [arrive, hm, hf]
  cases hi : place.node.importTarget? with
  | some target => exact noteNode_import base place metadata target hopen hi
  | none =>
    cases ha : place.node.aliasBinding? with
    | error e =>
      rw [ha] at hok
      cases hok
    | ok binding =>
      cases binding with
      | some entry => exact noteNode_alias base place metadata entry.1 entry.2 hopen ha
      | none => exact noteNode_plain base visited place metadata hb hscope hm hname hi ha

/-- The step lemma: on arrival at a place that needs no missing name, the state goes on to that of
the places below, and the tables get the entries of the node. -/
theorem arrive_eq (hb : base.IsOpen)
    (hscope : metadata.scope = scopeAt base visited place.scopes) (hw : place.WellPlaced)
    (hv : Fresh visited place.path) (hnamed : place.node.lacksName = false) :
    metadata.arrive place.node =
      .ok ⟨scopeAt base (visited ++ [place]) place.inner,
        writeDefinitions metadata.scope place.node metadata.definitions,
        writeContext metadata.scope place.node metadata.contexts⟩ := by
  obtain ⟨hempty, hok⟩ := Bool.or_eq_false_iff.mp hnamed
  cases hm : place.node.moduleDefinition? with
  | some found =>
    obtain ⟨segments, line⟩ := found
    have hs : segments ≠ [] := by simpa [hm] using hempty
    exact arrive_module base visited place metadata segments line hb hscope hw hv hm hs
  | none =>
    cases hf : place.node.functionDefinition? with
    | some function => exact arrive_function base visited place metadata function hscope hw hv hf
    | none => exact arrive_note base visited place metadata hb hscope hw hm hf (by simpa using hok)

end Arrivals

end Metadata

/-! ### Departures -/

namespace Metadata

theorem leave_scopeAt (base : Scope) (visited : List Place) (scope : Enclosure)
    (scopes : List Enclosure) (hb : base.IsOpen) (hn : scope.names ≠ []) :
    (scopeAt base visited (scope :: scopes)).leave scope.names.length scope.segments.length =
      .ok (scopeAt base visited scopes) := by
  rw [scopeAt_cons]
  exact Scope.leave_of_entered _ _ _ _ _ _ _ _ _ _ hn (scopeAt_isOpen base visited scopes hb).names

theorem leave_inner (base : Scope) (visited : List Place) (place : Place) (scope : Scope)
    (hb : base.IsOpen) (hscope : scope = scopeAt base visited place.inner)
    (hd : place.node.isDefinition = true) (hn : place.enclosure.names ≠ []) :
    scope.leave place.enclosure.names.length place.enclosure.segments.length =
      .ok (scopeAt base visited place.scopes) := by
  rw [hscope, Place.inner, if_pos hd]
  exact leave_scopeAt base visited place.enclosure place.scopes hb hn

theorem visitUp_eq (base : Scope) (visited : List Place) (place : Place) (metadata : Metadata)
    (hb : base.IsOpen) (hscope : metadata.scope = scopeAt base visited place.inner)
    (hnamed : place.node.lacksName = false) :
    visitUp place.node.refined metadata =
      .ok (place.node.refined, { metadata with scope := scopeAt base visited place.scopes }) := by
  have hleave := leave_inner base visited place metadata.scope hb hscope
  have hfunction := Node.functionName?_refined place.node
  rw [visitUp, Node.moduleDefinition?_refined]
  cases hm : place.node.moduleDefinition? with
  | some found =>
    obtain ⟨segments, line⟩ := found
    have hs : segments ≠ [] := by
      have hempty := (Bool.or_eq_false_iff.mp hnamed).1
      simpa [hm] using hempty
    have hd : place.node.isDefinition = true := by simp [Node.isDefinition, hm]
    have hnames : place.enclosure.names = segments.reverse := by
      simp [Enclosure.names, Place.enclosure, hm]
    have hsegments : place.enclosure.segments = segments := by
      simp [Enclosure.segments, Place.enclosure, hm]
    rw [hnames, hsegments, List.length_reverse] at hleave
    simp only [hleave hd (by simpa using hs), withScope, Except.map, bind, Except.bind, pure,
      Except.pure]
  | none =>
    dsimp only
    cases hf : place.node.refined.functionDefinition? with
    | some function =>
      have hname : place.node.functionName? = some function.name := by
        rw [← hfunction, Node.functionName?, hf]
        rfl
      have hd : place.node.isDefinition = true := by simp [Node.isDefinition, hname]
      have hnames : place.enclosure.names = [function.name] := by
        simp [Enclosure.names, Place.enclosure, hm, hname]
      have hsegments : place.enclosure.segments = [] := by
        simp [Enclosure.segments, Place.enclosure, hm]
      rw [hnames, hsegments] at hleave
      have hone : metadata.scope.leave 1 0 = .ok (scopeAt base visited place.scopes) :=
        hleave hd (List.cons_ne_nil _ _)
      simp only [hone, withScope, Except.map, bind, Except.bind, pure, Except.pure]
    | none =>
      have hname : place.node.functionName? = none := by
        rw [← hfunction, Node.functionName?, hf]
        rfl
      have hinner : place.inner = place.scopes := by
        simp [Place.inner, Node.isDefinition, hm, hname]
      rw [← hinner, ← hscope]

end Metadata

end LineScope
