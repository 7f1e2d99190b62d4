import LineScope.Proofs.Analysis.Contexts
import LineScope.Proofs.Analysis.Definitions
import Mathlib.Data.List.Induction

/-!
# The variables of lines by position

Variables are filtered and kept apart while they are noted, against the innermost frame and the name
of the innermost scope.  Here the variables of a recorded line are read off the finished tree: they
are the identifiers in front of the place that records the line, in the same scope.
-/

namespace LineScope

/-! ### The names of scopes -/

/-- The name of a scope: that of the function, or the last segment of the module. -/
def Enclosure.name? (scope : Enclosure) : Option String :=
  match scope.node.moduleDefinition? with
  | some (segments, _) => segments.getLast?
  | none => scope.node.functionName?

theorem Enclosure.head?_names (scope : Enclosure) : scope.names.head? = scope.name? := by
  unfold names name?
  cases scope.node.moduleDefinition? with
  | some found => simp
  | none => cases scope.node.functionName? <;> rfl

namespace Place

/-- The name of the innermost scope of a place. -/
def scopeName? (place : Place) : Option String :=
  match place.scopes with
  | [] => some rootModule
  | scope :: _ => scope.name?

theorem enclosure_names_ne_nil (place : Place) (hd : place.node.isDefinition = true)
    (hnamed : place.node.lacksName = false) : place.enclosure.names ≠ [] := by
  cases hm : place.node.moduleDefinition? with
  | some found =>
    have hempty := (Bool.or_eq_false_iff.mp hnamed).1
    simpa [Enclosure.names, enclosure, hm] using hempty
  | none =>
    obtain ⟨name, hname⟩ := Option.isSome_iff_exists.mp (by simpa [Node.isDefinition, hm] using hd)
    simp [Enclosure.names, enclosure, hm, hname]

/-- In a walk that needs no missing name, every scope of every place has a name. -/
theorem names_of_upTo (limit : Nat) (place : Place)
    (hnamed : ∀ other ∈ upTo Node.normalizeDefinition limit place, other.node.lacksName = false)
    (hscopes : ∀ scope ∈ place.scopes, scope.names ≠ []) :
    ∀ other ∈ upTo Node.normalizeDefinition limit place, ∀ scope ∈ other.scopes,
      scope.names ≠ [] := by
  induction limit generalizing place with
  | zero => simp [upTo]
  | succ limit ih =>
    intro other ho
    rcases List.mem_cons.mp ho with rfl | ho
    · exact hscopes
    · obtain ⟨child, hc, ho⟩ := List.mem_flatMap.mp ho
      have hinner : ∀ scope ∈ place.inner, scope.names ≠ [] := by
        intro scope hs
        unfold inner at hs
        split at hs
        · rename_i hd
          rcases List.mem_cons.mp hs with rfl | hs
          · exact enclosure_names_ne_nil place hd (hnamed place List.mem_cons_self)
          · exact hscopes scope hs
        · exact hscopes scope hs
      refine ih child (fun inside hi => ?_) ?_ other ho
      · exact hnamed inside (List.mem_cons_of_mem _ (List.mem_flatMap.mpr ⟨child, hc, hi⟩))
      · obtain ⟨j, node, -, -, rfl⟩ := mem_sideBySide _ _ _ _ _ child hc
        exact hinner

theorem head?_names_eq (place : Place) (h : ∀ scope ∈ place.scopes, scope.names ≠ []) :
    (place.scopes.flatMap Enclosure.names ++ Scope.start.names).head? = place.scopeName? := by
  unfold scopeName?
  cases hs : place.scopes with
  | nil => rfl
  | cons scope scopes =>
    have hne := h scope (by simp [hs])
    obtain ⟨name, names, hnames⟩ := List.exists_cons_of_ne_nil hne
    show ((scope :: scopes).flatMap Enclosure.names ++ _).head? = scope.name?
    rw [← scope.head?_names]
    simp [hnames]

/-! ### Variables by position -/

/-- The variable that a place brings into its scope: an identifier that neither starts with an
underscore nor has the name of the scope. -/
def varName? (place : Place) : Option String :=
  place.node.variableName?.filter fun name =>
    name.toList.head? != some '_' && place.scopeName? != some name

/-- The variables at a place: those of the places in front of it in the same scope, each once, in
the order in which they have come first and the latest in front. -/
def varsAt (before : List Place) (place : Place) : List String :=
  ((before.filter fun other => other.scopePath = place.scopePath).filterMap
    varName?).eraseDups.reverse

theorem addVar_eq (place : Place) (frame : Frame String)
    (h : ∀ scope ∈ place.scopes, scope.names ≠ []) :
    place.addVar Scope.start.names frame =
      match place.varName? with
      | none => frame
      | some name => if name ∈ frame then frame else name :: frame := by
  unfold addVar varName?
  rw [place.head?_names_eq h]
  cases place.node.variableName? with
  | none => rfl
  | some name =>
    dsimp only
    by_cases hbar : name.toList.head? = some '_'
    · simp [Option.filter, hbar]
    · by_cases hscope : place.scopeName? = some name
      · simp [Option.filter, hscope]
      · simp [Option.filter, hbar, hscope]

theorem frameOf_addVar (visited : List Place) (scope : Option (List Nat))
    (h : ∀ place ∈ visited, ∀ scope ∈ place.scopes, scope.names ≠ []) :
    frameOf (addVar Scope.start.names) visited scope [] =
      ((visited.filter fun place => place.scopePath = scope).filterMap
        varName?).eraseDups.reverse := by
  unfold frameOf
  have hall : ∀ place ∈ visited.filter (fun place => place.scopePath = scope),
      ∀ scope ∈ place.scopes, scope.names ≠ [] :=
    fun place hp => h place (List.mem_filter.mp hp).1
  generalize visited.filter (fun place => place.scopePath = scope) = places at hall
  induction places using List.reverseRecOn with
  | nil => rfl
  | append_singleton places place ih =>
    have hrest := ih fun other ho => hall other (List.mem_append_left _ ho)
    have hlast := hall place (List.mem_append_right _ List.mem_cons_self)
    rw [List.foldl_append, hrest, List.foldl_cons, List.foldl_nil, place.addVar_eq _ hlast,
      List.filterMap_append]
    cases hv : place.varName? with
    | none => simp [hv]
    | some name =>
      simp only [List.filterMap_cons, hv, List.filterMap_nil, eraseDups_concat, List.mem_reverse]
      split
      · rfl
      · simp

theorem currentVars_scopeAt (visited : List Place) (place : Place)
    (h : ∀ other ∈ visited, ∀ scope ∈ other.scopes, scope.names ≠ []) :
    (scopeAt .start visited place.scopes).currentVars = varsAt visited place := by
  rw [varsAt, ← frameOf_addVar visited place.scopePath h]
  unfold scopePath
  cases place.scopes <;> rfl

/-! ### Settled places -/

theorem scopePath_refined (place : Place) : place.refined.scopePath = place.scopePath := by
  simp [scopePath, refined, Function.comp_def]

theorem varName?_refined (place : Place) : place.refined.varName? = place.varName? := by
  have hname : ∀ scope : Enclosure,
      Enclosure.name? ⟨scope.path, scope.node.refined⟩ = scope.name? := by
    intro scope
    simp only [Enclosure.name?, Node.moduleDefinition?_refined, Node.functionName?_refined]
  have hscope : place.refined.scopeName? = place.scopeName? := by
    unfold scopeName? refined
    dsimp only
    cases place.scopes with
    | nil => rfl
    | cons scope scopes => exact hname scope
  have hvariable : place.refined.node.variableName? = place.node.variableName? :=
    Node.variableName?_refined place.node
  rw [varName?, varName?, hscope, hvariable]

theorem varsAt_refined (before : List Place) (place : Place) :
    varsAt (before.map refined) place.refined = varsAt before place := by
  simp only [varsAt, List.filter_map, List.filterMap_map, Function.comp_def, scopePath_refined,
    varName?_refined]

end Place

theorem Node.hidesVars_refined (node : Node) : node.refined.hidesVars = node.hidesVars := by
  simp only [hidesVars, functionName?_refined, importTarget?_refined, binding?_refined]

namespace Metadata

/-- The variables of lines by position: every recorded line has a last place that records it, and it
has the variables at that place, or none where the place is a function definition or a directive. -/
theorem variables_by_position (node : Node) (hnames : node.NamesModules) :
    ∃ tree metadata, build node = .ok (tree, metadata) ∧
      (∀ line ∈ metadata.contexts.keys, ∃ before place after,
        tree.places = before ++ place :: after ∧ place.node.recordedLine? = some line ∧
          ∀ later ∈ after, later.node.recordedLine? ≠ some line) ∧
      ∀ before place after line, tree.places = before ++ place :: after →
        place.node.recordedLine? = some line →
        (∀ later ∈ after, later.node.recordedLine? ≠ some line) →
        ∃ context, metadata.contexts.get? line = some context ∧
          context.vars = if place.node.hidesVars then [] else Place.varsAt before place := by
  have hnamed := Node.NamesModules.arrivals node hnames
  refine ⟨_, _, build_eq node hnamed, fun line hline => ?_, ?_⟩
  · obtain ⟨place, hmem, hrecorded⟩ := (mem_keys_replay .start line [] node.arrivals).mp hline
    refine exists_last line _ ⟨place.refined, ?_, ?_⟩
    · rw [Node.places_settled]
      exact List.mem_map_of_mem hmem
    · exact (Node.recordedLine?_refined place.node).trans hrecorded
  · intro before place after line hsplit hrecorded hlast
    rw [Node.places_settled] at hsplit
    obtain ⟨first, rest, harrivals, rfl, hrest⟩ := List.map_eq_append_iff.mp hsplit
    obtain ⟨origin, later, rfl, rfl, rfl⟩ := List.map_eq_cons_iff.mp hrest
    have hscopes : ∀ other ∈ first, ∀ scope ∈ other.scopes, scope.names ≠ [] := by
      intro other ho
      have hmem : other ∈ node.arrivals := harrivals ▸ List.mem_append_left _ ho
      exact Place.names_of_upTo node.depth _ hnamed (by simp) other hmem
    have hget := get?_replay_of_last .start line [] first later origin .empty
      ((Node.recordedLine?_refined origin.node).symm.trans hrecorded)
      fun other ho he => hlast other.refined (List.mem_map_of_mem ho)
        ((Node.recordedLine?_refined other.node).trans he)
    rw [← harrivals] at hget
    have hhides : origin.refined.node.hidesVars = origin.node.hidesVars :=
      Node.hidesVars_refined origin.node
    refine ⟨_, hget, ?_⟩
    rw [Place.varsAt_refined, hhides, List.nil_append, snapshot_scopeAt_start,
      Place.currentVars_scopeAt first origin hscopes]
    cases origin.node.hidesVars <;> rfl

/-- A function whose body binds variables around a module with a variable of its own. -/
def nestedBindings : Node :=
  .call "def" (some [.call "run" (some [.ident "x" (some 1) none, .ident "_y" (some 1) none])
    (some 1), .list [.pair (.atom "do") (.block
      [.ident "z" (some 2) none, .ident "run" (some 2) none,
        .call "defmodule" (some [.aliases ["Inner"], .list [.pair (.atom "do")
          (.ident "w" (some 3) none)]]) (some 3),
        .ident "x" (some 4) (some "Elixir"),
        .call "send" (some [.ident "x" (some 5) none, .ident "v" (some 5) none]) (some 5)])]])
    (some 1)

theorem variables_by_position_nestedBindings :
    ∃ tree metadata context, build nestedBindings = .ok (tree, metadata) ∧
      metadata.contexts.get? 5 = some context ∧ context.vars = ["z", "x"] := by
  obtain ⟨tree, metadata, hbuild, -, hplaces⟩ := variables_by_position nestedBindings (by decide)
  have htree : tree = nestedBindings := by
    have hfirst : (build nestedBindings).map (·.1) = .ok nestedBindings := rfl
    rw [hbuild] at hfirst
    exact Except.ok.inj hfirst
  subst htree
  obtain ⟨context, hget, hvars⟩ := hplaces (nestedBindings.places.take 18) _
    (nestedBindings.places.drop 19) 5 rfl rfl (by decide)
  exact ⟨nestedBindings, metadata, context, hbuild, hget, hvars⟩

end Metadata

end LineScope
