import LineScope.Proofs.Analysis.Run

/-!
# Scope isolation

What a walk over a tree leaves of the state it started in.  The state behind the tree is the state
of a place outside all of its definitions, so only the places outside them have added to it, and
only to the innermost frames.
-/

namespace LineScope

/-! ### Growing stacks -/

/-- A stack that differs from another at most by new entries in front of its innermost frame. -/
def FrameStack.Grows {α : Type} (before after : FrameStack α) : Prop :=
  ∃ added frame outer, before = frame :: outer ∧ after = (added ++ frame) :: outer

/-- A state that differs from another at most by new entries in the innermost frames. -/
structure Scope.Grows (before after : Scope) : Prop where
  modulePath : after.modulePath = before.modulePath
  names : after.names = before.names
  imports : before.imports.Grows after.imports
  aliases : before.aliases.Grows after.aliases
  vars : before.vars.Grows after.vars

section Frames

variable {α : Type} (add : Place → Frame α → Frame α)

theorem frameOf_grows (hadd : ∀ place frame, ∃ added, add place frame = added ++ frame)
    (visited : List Place) (scope : Option (List Nat)) (frame : Frame α) :
    ∃ added, frameOf add visited scope frame = added ++ frame := by
  unfold frameOf
  induction visited.filter (fun place => place.scopePath = scope) generalizing frame with
  | nil => exact ⟨[], rfl⟩
  | cons place places ih =>
    obtain ⟨first, hfirst⟩ := hadd place frame
    obtain ⟨rest, hrest⟩ := ih (add place frame)
    refine ⟨rest ++ first, ?_⟩
    rw [List.foldl_cons, hrest, hfirst, List.append_assoc]

theorem framesOver_grows (hadd : ∀ place frame, ∃ added, add place frame = added ++ frame)
    (outer : FrameStack α) (visited : List Place) (h : outer ≠ []) :
    outer.Grows (framesOver add outer visited []) := by
  cases outer with
  | nil => exact absurd rfl h
  | cons frame outer =>
    obtain ⟨added, ha⟩ := frameOf_grows add hadd visited none frame
    refine ⟨added, frame, outer, rfl, ?_⟩
    rw [← ha]
    rfl

end Frames

namespace Place

theorem addVar_grows (outer : List String) (place : Place) (frame : Frame String) :
    ∃ added, place.addVar outer frame = added ++ frame := by
  unfold addVar
  split
  · exact ⟨[], rfl⟩
  · rename_i name _
    split
    · exact ⟨[], rfl⟩
    · exact ⟨[name], rfl⟩

end Place

theorem scopeAt_grows (base : Scope) (visited : List Place) (h : base.IsOpen) :
    base.Grows (scopeAt base visited []) where
  modulePath := by simp [scopeAt, modulePathOf]
  names := by simp [scopeAt]
  imports := framesOver_grows _ (fun _ _ => ⟨_, rfl⟩) _ visited h.imports
  aliases := framesOver_grows _ (fun _ _ => ⟨_, rfl⟩) _ visited h.aliases
  vars := framesOver_grows _ (Place.addVar_grows _) _ visited h.vars

/-! ### Definitions -/

/-- The place of a whole tree. -/
def Node.rootPlace (node : Node) : Place := ⟨node.normalizeDefinition, [], []⟩

theorem Node.arrivals_eq_cons (node : Node) :
    ∃ others, node.arrivals = node.rootPlace :: others ∧
      ∀ other ∈ others, node.rootPlace.inner <:+ other.scopes := by
  have hdepth : node.depth = node.depth - 1 + 1 := by
    have hpos := node.one_le_depth
    omega
  refine ⟨(node.rootPlace.below normalizeDefinition).flatMap
    (Place.upTo normalizeDefinition (node.depth - 1)), ?_, ?_⟩
  · rw [arrivals, hdepth]
    rfl
  · intro other ho
    obtain ⟨child, hc, ho⟩ := List.mem_flatMap.mp ho
    obtain ⟨j, below, _, _, rfl⟩ := Place.mem_sideBySide _ _ _ _ _ child hc
    have hw := Place.WellPlaced.child node.rootPlace (Place.wellPlaced_root _)
      below.normalizeDefinition j
    exact (Place.upTo_spec _ _ _ other hw ho).2.2

/-- Behind a definition, only the definition itself has added to the state. -/
theorem scopeAt_arrivals_of_definition (base : Scope) (node : Node)
    (hd : node.normalizeDefinition.isDefinition = true) :
    scopeAt base node.arrivals [] = scopeAt base [node.rootPlace] [] := by
  obtain ⟨others, harrivals, hinner⟩ := node.arrivals_eq_cons
  have hne : ∀ other ∈ others, other.scopePath ≠ none := by
    intro other ho hnone
    have hsuffix := hinner other ho
    have hscope : node.rootPlace.inner = [node.rootPlace.enclosure] := by
      rw [Place.inner, if_pos (by exact hd)]
      rfl
    have hempty : other.scopes = [] := by simpa [Place.scopePath] using hnone
    rw [hscope, hempty] at hsuffix
    simp at hsuffix
  have hframe : ∀ {α : Type} (add : Place → Frame α → Frame α),
      frameOf add node.arrivals none = frameOf add [node.rootPlace] none := by
    intro α add
    funext frame
    rw [harrivals, ← List.singleton_append, frameOf_append, frameOf_of_ne add others _ _ hne]
  simp only [scopeAt, framesOver, hframe, List.map_nil]

theorem scopeAt_rootPlace (base : Scope) (node : Node) :
    scopeAt base [node.rootPlace] [] =
      ⟨base.modulePath, base.names, base.imports.modifyHead node.rootPlace.addImport,
        base.aliases.modifyHead (node.rootPlace.addAlias base.modulePath),
        base.vars.modifyHead (node.rootPlace.addVar base.names)⟩ := by
  have hsnoc := scopeAt_snoc base [] node.rootPlace (Place.wellPlaced_root _)
  have hroot : scopeAt base [] node.rootPlace.scopes = base := scopeAt_root base
  rw [hroot] at hsnoc
  exact hsnoc

namespace Metadata

theorem scope_behind_function (base : Scope) (node : Node) (function : Node.FunctionDefinition)
    (hf : node.normalizeDefinition.functionDefinition? = some function) :
    scopeAt base node.arrivals [] = base := by
  obtain ⟨hm, _, hi, ha, hn⟩ := Node.of_functionDefinition? _ _ hf
  have hd : node.normalizeDefinition.isDefinition = true := by
    simp [Node.isDefinition, Node.functionName?, hf]
  have hentry : node.rootPlace.aliasEntry base.modulePath = none := by
    rw [Place.aliasEntry_eq_binding? _ node.rootPlace hm]
    show node.normalizeDefinition.binding? = none
    rw [Node.binding?, ha]
    rfl
  rw [scopeAt_arrivals_of_definition base node hd, scopeAt_rootPlace,
    Place.addImport_eq_id node.rootPlace hi, Place.addAlias_eq_id _ node.rootPlace hentry,
    Place.addVar_eq_id _ node.rootPlace hn]
  simp only [List.modifyHead_id, id]

theorem scope_behind_module (base : Scope) (node : Node) (segments : List String) (line : Int)
    (short : String) (hm : node.moduleDefinition? = some (segments, line))
    (hs : segments.getLast? = some short) :
    scopeAt base node.arrivals [] =
      if 1 < (base.modulePath ++ segments).length then
        { base with
          aliases := base.aliases.modifyHead
            ((short, modulePathName (base.modulePath ++ segments)) :: ·) }
      else base := by
  have hm' : node.normalizeDefinition.moduleDefinition? = some (segments, line) := by
    rw [Node.moduleDefinition?_normalizeDefinition, hm]
  obtain ⟨_, hi, _, hn⟩ := Node.of_moduleDefinition? _ _ _ hm'
  have hd : node.normalizeDefinition.isDefinition = true := by simp [Node.isDefinition, hm']
  have hentry : node.rootPlace.aliasEntry base.modulePath =
      if 1 < (base.modulePath ++ segments).length then
        some (short, modulePathName (base.modulePath ++ segments))
      else none := by
    simp only [Place.aliasEntry, Node.rootPlace, hm', Place.fullPath, modulePathOf,
      List.reverse_nil, List.flatMap_nil, List.append_nil, hs, Option.map_some]
  rw [scopeAt_arrivals_of_definition base node hd, scopeAt_rootPlace,
    Place.addImport_eq_id node.rootPlace hi, Place.addVar_eq_id _ node.rootPlace hn]
  by_cases hlong : 1 < (base.modulePath ++ segments).length
  · rw [if_pos hlong] at hentry ⊢
    rw [Place.addAlias_eq_cons _ _ _ hentry]
    simp only [List.modifyHead_id, id]
  · rw [if_neg hlong] at hentry ⊢
    rw [Place.addAlias_eq_id _ _ hentry]
    simp only [List.modifyHead_id, id]

/-- Scope isolation: a walk returns, and changes nothing of the state it started in but that the
innermost frames may gain entries in front.  Behind a function nothing has changed, and behind a
module nothing but the alias for it. -/
theorem walk_isolates_scopes (node : Node) (metadata : Metadata) (hopen : metadata.scope.IsOpen)
    (hnames : node.NamesModules) :
    ∃ tree after, walk node metadata = .ok (tree, after) ∧ metadata.scope.Grows after.scope ∧
      (node.normalizeDefinition.functionDefinition?.isSome = true →
        after.scope = metadata.scope) ∧
      ∀ segments line, node.moduleDefinition? = some (segments, line) →
        ∃ short, segments.getLast? = some short ∧
          after.scope =
            if 1 < (metadata.scope.modulePath ++ segments).length then
              { metadata.scope with
                aliases := metadata.scope.aliases.modifyHead
                  ((short, modulePathName (metadata.scope.modulePath ++ segments)) :: ·) }
            else metadata.scope := by
  have hnamed := Node.NamesModules.arrivals node hnames
  refine ⟨node.settled, metadata.behind metadata.scope [] node.arrivals [],
    walk_eq node metadata hopen hnamed, scopeAt_grows _ _ hopen, ?_, ?_⟩
  · intro hfunction
    obtain ⟨function, hf⟩ := Option.isSome_iff_exists.mp hfunction
    exact scope_behind_function metadata.scope node function hf
  · intro segments line hm
    have hne : segments ≠ [] := by
      obtain ⟨name, body, rfl, hs⟩ := Node.moduleDefinition?_inv node segments line hm
      intro he
      exact hnames name (Node.child_mem_occurrences _ name List.mem_cons_self) (he ▸ hs)
    have hs := List.getLast?_eq_some_getLast hne
    exact ⟨_, hs, scope_behind_module metadata.scope node segments line _ hm hs⟩

/-- A module that holds an alias, another module and a guarded macro without a body. -/
def nestedModules : Node :=
  .call "defmodule" (some [.aliases ["Web"], .list [.pair (.atom "do") (.block
    [.call "alias" (some [.aliases ["App", "Repo"]]) (some 4),
      .call "defmodule" (some [.aliases ["Inner"], .list []]) (some 5),
      .call "defmacro" (some [.call "when" (some [.call "run" (some [.ident "x" (some 6) none])
        (some 6), .ident "y" (some 6) none]) (some 6)]) (some 6)])]]) (some 3)

/-- The metadata inside a module that has noted an import, an alias and a variable. -/
def insideModule : Metadata :=
  ⟨⟨["App"], ["App", rootModule], [["Enum"], []], [[("Repo", "App.Repo")], []], [["conn"], []]⟩,
    .empty, .empty⟩

theorem walk_isolates_scopes_nestedModules :
    ∃ tree after, walk nestedModules insideModule = .ok (tree, after) ∧
      after.scope =
        { insideModule.scope with
          aliases := [[("Web", "App.Web"), ("Repo", "App.Repo")], []] } := by
  have hopen : insideModule.scope.IsOpen := by
    constructor <;> exact List.cons_ne_nil _ _
  obtain ⟨tree, after, hwalk, _, _, hmodule⟩ :=
    walk_isolates_scopes nestedModules insideModule hopen (by decide)
  obtain ⟨short, hs, hafter⟩ := hmodule ["Web"] 3 rfl
  cases hs
  exact ⟨tree, after, hwalk, hafter⟩

/-! ### Whole files -/

/-- The analysis of a tree whose module names have segments returns, with every scope closed. -/
theorem build_balanced (node : Node) (hnames : node.NamesModules) :
    ∃ tree metadata, build node = .ok (tree, metadata) ∧ metadata.scope.modulePath = [] ∧
      metadata.scope.names = [rootModule] ∧ metadata.scope.imports.length = 1 ∧
      metadata.scope.aliases.length = 1 ∧ metadata.scope.vars.length = 1 := by
  refine ⟨_, _, build_eq node (Node.NamesModules.arrivals node hnames), ?_⟩
  have hgrows := scopeAt_grows Scope.start node.arrivals Scope.start_isOpen
  refine ⟨hgrows.modulePath, hgrows.names, ?_⟩
  simp [behind, scopeAt, framesOver, Scope.start, FrameStack.root]

theorem build_balanced_nestedModules :
    nestedModules.NamesModules ∧
      ∃ tree metadata, build nestedModules = .ok (tree, metadata) ∧
        metadata.scope.modulePath = [] ∧ metadata.scope.names = [rootModule] ∧
        metadata.scope.imports.length = 1 ∧ metadata.scope.aliases.length = 1 ∧
        metadata.scope.vars.length = 1 :=
  ⟨by decide, build_balanced nestedModules (by decide)⟩

end Metadata

end LineScope
