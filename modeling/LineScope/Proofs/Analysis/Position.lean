import LineScope.Proofs.Analysis.Place

/-!
# The scope state as a function of the place

What is in scope at a place follows from where the place stands: its module path and its names from
the definitions around it, and each of its frames from the places before it whose innermost scope is
the scope of the frame.  `scopeAt` says so for a walk that starts in any state.
-/

namespace LineScope

/-! ### Paths and names -/

namespace Enclosure

/-- The segments that a scope adds to the module path. -/
def segments (scope : Enclosure) : List String := (scope.node.moduleDefinition?.map (·.1)).getD []

/-- The names that a scope enters, innermost first. -/
def names (scope : Enclosure) : List String :=
  match scope.node.moduleDefinition? with
  | some (segments, _) => segments.reverse
  | none => scope.node.functionName?.toList

end Enclosure

/-- The segments of the modules around a place, from the outside in. -/
def modulePathOf (scopes : List Enclosure) : List String := scopes.reverse.flatMap Enclosure.segments

theorem modulePathOf_cons (scope : Enclosure) (scopes : List Enclosure) :
    modulePathOf (scope :: scopes) = modulePathOf scopes ++ scope.segments := by
  simp [modulePathOf]

/-! ### Frames -/

section Frames

variable {α : Type} (add : Place → Frame α → Frame α)

/-- The frame of a scope behind some places: what the places directly inside the scope have added,
one after the other. -/
def frameOf (visited : List Place) (scope : Option (List Nat)) (frame : Frame α) : Frame α :=
  (visited.filter fun place => place.scopePath = scope).foldl (fun frame place => add place frame)
    frame

/-- The frames of scopes behind some places, above the frames that were there before. -/
def framesOver (outer : FrameStack α) (visited : List Place) (scopes : List Enclosure) :
    FrameStack α :=
  scopes.map (fun scope => frameOf add visited (some scope.path) []) ++
    outer.modifyHead (frameOf add visited none)

theorem frameOf_append (first second : List Place) (scope : Option (List Nat)) (frame : Frame α) :
    frameOf add (first ++ second) scope frame =
      frameOf add second scope (frameOf add first scope frame) := by
  simp [frameOf, List.filter_append]

theorem frameOf_snoc_of_eq (visited : List Place) (place : Place) (scope : Option (List Nat))
    (frame : Frame α) (h : place.scopePath = scope) :
    frameOf add (visited ++ [place]) scope frame = add place (frameOf add visited scope frame) := by
  simp [frameOf, List.filter_append, h]

theorem frameOf_snoc_of_ne (visited : List Place) (place : Place) (scope : Option (List Nat))
    (frame : Frame α) (h : place.scopePath ≠ scope) :
    frameOf add (visited ++ [place]) scope frame = frameOf add visited scope frame := by
  simp [frameOf, List.filter_append, h]

theorem frameOf_of_ne (visited : List Place) (scope : Option (List Nat)) (frame : Frame α)
    (h : ∀ place ∈ visited, place.scopePath ≠ scope) :
    frameOf add visited scope frame = frame := by
  have hnil : (visited.filter fun place => place.scopePath = scope) = [] := by
    rw [List.filter_eq_nil_iff]
    intro place hp
    simpa using h place hp
  rw [frameOf, hnil, List.foldl_nil]

theorem framesOver_nil (outer : FrameStack α) : framesOver add outer [] [] = outer := by
  cases outer <;> rfl

theorem framesOver_ne_nil (outer : FrameStack α) (visited : List Place) (scopes : List Enclosure)
    (h : outer ≠ []) : framesOver add outer visited scopes ≠ [] := by
  cases outer with
  | nil => exact absurd rfl h
  | cons frame outer => simp [framesOver]

/-- A place adds to the innermost of its frames and to no other. -/
theorem framesOver_snoc (outer : FrameStack α) (visited : List Place) (place : Place)
    (h : place.WellPlaced) :
    framesOver add outer (visited ++ [place]) place.scopes =
      (framesOver add outer visited place.scopes).modifyHead (add place) := by
  cases hs : place.scopes with
  | nil =>
    have hpath : place.scopePath = none := by simp [Place.scopePath, hs]
    cases outer with
    | nil => rfl
    | cons frame outer =>
      simp [framesOver, frameOf_snoc_of_eq add visited place none frame hpath]
  | cons scope scopes =>
    have hpath : place.scopePath = some scope.path := by simp [Place.scopePath, hs]
    have hdistinct : ∀ other ∈ scopes, other.path ≠ scope.path := by
      have hw := (List.pairwise_cons.mp h).2
      rw [hs, List.map_cons] at hw
      intro other ho
      exact ((List.pairwise_cons.mp hw).1 other.path (List.mem_map_of_mem ho)).2
    have hinner := frameOf_snoc_of_eq add visited place (some scope.path) [] hpath
    have hrest : scopes.map (fun s => frameOf add (visited ++ [place]) (some s.path) []) =
        scopes.map (fun s => frameOf add visited (some s.path) []) := by
      refine List.map_congr_left fun other ho => frameOf_snoc_of_ne add visited place _ _ ?_
      rw [hpath]
      intro he
      exact hdistinct other ho (Option.some.inj he).symm
    have houter : outer.modifyHead (frameOf add (visited ++ [place]) none) =
        outer.modifyHead (frameOf add visited none) := by
      have hf : frameOf add (visited ++ [place]) none = frameOf add visited none := by
        funext frame
        exact frameOf_snoc_of_ne add visited place none frame (by rw [hpath]; exact Option.some_ne_none _)
      rw [hf]
    simp only [framesOver, List.map_cons, List.cons_append, List.modifyHead_cons, hinner, hrest,
      houter]

/-- A scope that no place before lies in starts with an empty frame. -/
theorem framesOver_enter (outer : FrameStack α) (visited : List Place) (scope : Enclosure)
    (scopes : List Enclosure) (h : ∀ place ∈ visited, place.scopePath ≠ some scope.path) :
    framesOver add outer visited (scope :: scopes) =
      (framesOver add outer visited scopes).push := by
  simp only [framesOver, List.map_cons, List.cons_append, frameOf_of_ne add visited _ _ h]
  rfl

end Frames

/-! ### What a place adds -/

namespace Place

/-- The import that a place brings into its innermost scope. -/
def addImport (place : Place) (frame : Frame String) : Frame String :=
  place.node.importTarget?.toList ++ frame

/-- The full path of a module that is defined at a place, below an outer path. -/
def fullPath (outer : List String) (place : Place) (segments : List String) : List String :=
  outer ++ modulePathOf place.scopes ++ segments

/-- The alias that a place brings into its innermost scope: the one that a directive binds, or the
last segment of a module whose full path has more than one. -/
def aliasEntry (outer : List String) (place : Place) : Option (String × String) :=
  match place.node.moduleDefinition? with
  | some (segments, _) =>
    let path := place.fullPath outer segments
    if 1 < path.length then segments.getLast?.map fun short => (short, modulePathName path) else none
  | none => place.node.binding?

/-- The alias that a place brings into its innermost scope, in front of the others. -/
def addAlias (outer : List String) (place : Place) (frame : Frame (String × String)) :
    Frame (String × String) :=
  (place.aliasEntry outer).toList ++ frame

/-- The variable that a place brings into its innermost scope, unless it is known, starts with an
underscore or has the name of the scope. -/
def addVar (outer : List String) (place : Place) (frame : Frame String) : Frame String :=
  match place.node.variableName? with
  | none => frame
  | some name =>
    if frame.contains name || name.toList.head? == some '_' ||
        (place.scopes.flatMap Enclosure.names ++ outer).head? == some name then frame
    else name :: frame

end Place

/-! ### The whole state -/

/-- The scope state within some scopes and behind some places, for a walk that starts in a state. -/
def scopeAt (base : Scope) (visited : List Place) (scopes : List Enclosure) : Scope :=
  ⟨base.modulePath ++ modulePathOf scopes,
    scopes.flatMap Enclosure.names ++ base.names,
    framesOver Place.addImport base.imports visited scopes,
    framesOver (Place.addAlias base.modulePath) base.aliases visited scopes,
    framesOver (Place.addVar base.names) base.vars visited scopes⟩

theorem scopeAt_root (base : Scope) : scopeAt base [] [] = base := by
  simp [scopeAt, framesOver_nil, modulePathOf]

theorem scopeAt_cons (base : Scope) (visited : List Place) (scope : Enclosure)
    (scopes : List Enclosure) :
    scopeAt base visited (scope :: scopes) =
      ⟨(scopeAt base visited scopes).modulePath ++ scope.segments,
        scope.names ++ (scopeAt base visited scopes).names,
        frameOf Place.addImport visited (some scope.path) [] ::
          (scopeAt base visited scopes).imports,
        frameOf (Place.addAlias base.modulePath) visited (some scope.path) [] ::
          (scopeAt base visited scopes).aliases,
        frameOf (Place.addVar base.names) visited (some scope.path) [] ::
          (scopeAt base visited scopes).vars⟩ := by
  simp [scopeAt, framesOver, modulePathOf_cons]

/-- A state with at least one name and one frame of each kind. -/
structure Scope.IsOpen (scope : Scope) : Prop where
  names : scope.names ≠ []
  imports : scope.imports ≠ []
  aliases : scope.aliases ≠ []
  vars : scope.vars ≠ []

theorem Scope.start_isOpen : Scope.start.IsOpen := by
  constructor <;> simp [Scope.start, FrameStack.root]

theorem scopeAt_isOpen (base : Scope) (visited : List Place) (scopes : List Enclosure)
    (h : base.IsOpen) : (scopeAt base visited scopes).IsOpen := by
  refine ⟨?_, framesOver_ne_nil _ _ _ _ h.imports, framesOver_ne_nil _ _ _ _ h.aliases,
    framesOver_ne_nil _ _ _ _ h.vars⟩
  simp [scopeAt, h.names]

theorem scopeAt_snoc (base : Scope) (visited : List Place) (place : Place) (h : place.WellPlaced) :
    scopeAt base (visited ++ [place]) place.scopes =
      ⟨(scopeAt base visited place.scopes).modulePath, (scopeAt base visited place.scopes).names,
        (scopeAt base visited place.scopes).imports.modifyHead place.addImport,
        (scopeAt base visited place.scopes).aliases.modifyHead (place.addAlias base.modulePath),
        (scopeAt base visited place.scopes).vars.modifyHead (place.addVar base.names)⟩ := by
  simp only [scopeAt, framesOver_snoc _ _ _ _ h]

/-- A place that the walk comes to for the first time: no place before stands at or below it. -/
def Fresh (visited : List Place) (path : List Nat) : Prop :=
  ∀ place ∈ visited, place.WellPlaced ∧ ¬ path <+: place.path

theorem Fresh.scopePath_ne (visited : List Place) (place : Place) (hv : Fresh visited place.path)
    (h : place.WellPlaced) : ∀ other ∈ visited ++ [place], other.scopePath ≠ some place.path := by
  intro other ho
  rcases List.mem_append.mp ho with ho | ho
  · obtain ⟨hw, hp⟩ := hv other ho
    exact Place.WellPlaced.not_prefix_scope other hw place.path hp
  · rw [List.mem_singleton.mp ho]
    exact Place.WellPlaced.scopePath_ne place h

/-- The state inside a definition is the state behind it with a scope opened for it. -/
theorem scopeAt_inner (base : Scope) (visited : List Place) (place : Place)
    (hd : place.node.isDefinition = true) (hv : Fresh visited place.path) (h : place.WellPlaced) :
    scopeAt base (visited ++ [place]) place.inner =
      (scopeAt base (visited ++ [place]) place.scopes).enter
        place.enclosure.names.reverse place.enclosure.segments := by
  have hne := Fresh.scopePath_ne visited place hv h
  have hinner : place.inner = place.enclosure :: place.scopes := by
    rw [Place.inner, if_pos hd]
  simp only [hinner, scopeAt, Scope.enter, modulePathOf_cons, List.flatMap_cons,
    List.reverse_reverse, List.append_assoc, framesOver_enter _ _ _ place.enclosure _ hne]

end LineScope
