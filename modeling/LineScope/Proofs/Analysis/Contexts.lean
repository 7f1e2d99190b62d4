import LineScope.Proofs.Analysis.Run

/-!
# The contexts of lines by position

The table of contexts is written while the walk opens and closes scopes.  Here each of its entries is
read off the finished tree: the last place on a line that records anything gives the context, and
what is in scope there was brought in by the places in front of it.
-/

namespace LineScope

/-! ### The last entry for a line -/

theorem Table.mem_keys_iff {κ α : Type} [DecidableEq κ] (table : Table κ α) (key : κ) :
    key ∈ table.keys ↔ (table.get? key).isSome = true := by
  rw [keys, get?, Option.isSome_map, List.find?_isSome]
  simp [eq_comm]

namespace Metadata

section Last

variable (base : Scope) (line : Int)

theorem get?_writeContext_of_ne (scope : Scope) (node : Node) (contexts : Table Int Context)
    (h : node.recordedLine? ≠ some line) :
    (writeContext scope node contexts).get? line = contexts.get? line := by
  unfold writeContext
  split
  · rename_i other ho
    rw [Table.get?_set, if_neg]
    intro he
    exact h (he ▸ ho)
  · rfl

theorem get?_replay_of_ne (visited places : List Place) (contexts : Table Int Context)
    (h : ∀ place ∈ places, place.node.recordedLine? ≠ some line) :
    (replay writeContext base visited places contexts).get? line = contexts.get? line := by
  induction places generalizing visited contexts with
  | nil => rfl
  | cons place places ih =>
    rw [replay, ih _ _ fun other ho => h other (List.mem_cons_of_mem _ ho)]
    exact get?_writeContext_of_ne line _ _ _ (h place List.mem_cons_self)

/-- The last place that records a line gives the context of the line. -/
theorem get?_replay_of_last (visited before after : List Place) (place : Place)
    (contexts : Table Int Context) (hp : place.node.recordedLine? = some line)
    (hlast : ∀ later ∈ after, later.node.recordedLine? ≠ some line) :
    (replay writeContext base visited (before ++ place :: after) contexts).get? line =
      some ((scopeAt base (visited ++ before) place.scopes).snapshot (!place.node.hidesVars)) := by
  rw [replay_append, replay, get?_replay_of_ne base line _ _ _ hlast]
  simp only [writeContext, hp]
  rw [Table.get?_set, if_pos rfl]

/-- Every place that records a line is followed by a last one. -/
theorem exists_last (places : List Place)
    (h : ∃ place ∈ places, place.node.recordedLine? = some line) :
    ∃ before place after, places = before ++ place :: after ∧
      place.node.recordedLine? = some line ∧
        ∀ later ∈ after, later.node.recordedLine? ≠ some line := by
  induction places with
  | nil =>
    obtain ⟨place, hm, _⟩ := h
    cases hm
  | cons place places ih =>
    by_cases hlater : ∃ later ∈ places, later.node.recordedLine? = some line
    · obtain ⟨before, last, after, rfl, hlast⟩ := ih hlater
      exact ⟨place :: before, last, after, rfl, hlast⟩
    · obtain ⟨found, hm, hp⟩ := h
      rcases List.mem_cons.mp hm with rfl | hm
      · exact ⟨[], found, places, rfl, hp, fun later hl he => hlater ⟨later, hl, he⟩⟩
      · exact absurd ⟨found, hm, hp⟩ hlater

theorem mem_keys_replay (visited places : List Place) :
    line ∈ (replay writeContext base visited places .empty).keys ↔
      ∃ place ∈ places, place.node.recordedLine? = some line := by
  rw [Table.mem_keys_iff]
  constructor
  · intro hsome
    by_contra hnone
    have hne : ∀ place ∈ places, place.node.recordedLine? ≠ some line :=
      fun place hp he => hnone ⟨place, hp, he⟩
    rw [get?_replay_of_ne base line visited places _ hne] at hsome
    cases hsome
  · intro h
    obtain ⟨before, place, after, rfl, hp, hlast⟩ := exists_last line places h
    rw [get?_replay_of_last base line visited before after place _ hp hlast]
    rfl

end Last

end Metadata

/-! ### Frames by position -/

section Entries

variable {α : Type} (entry : Place → Option α)

/-- What the places in front of a place have brought into a scope, newest first. -/
def entriesOf (before : List Place) (scope : Option (List Nat)) : Frame α :=
  ((before.filter fun place => place.scopePath = scope).filterMap entry).reverse

/-- The frames at a place, one for each of its scopes from the innermost outwards and one for the
file. -/
def framesAt (before : List Place) (place : Place) : FrameStack α :=
  place.scopes.map (fun scope => entriesOf entry before (some scope.path)) ++
    [entriesOf entry before none]

theorem foldl_entries (places : List Place) (frame : Frame α) :
    places.foldl (fun frame place => (entry place).toList ++ frame) frame =
      (places.filterMap entry).reverse ++ frame := by
  induction places generalizing frame with
  | nil => rfl
  | cons place places ih =>
    rw [List.foldl_cons, ih]
    cases he : entry place <;> simp [he]

theorem framesOver_root (visited : List Place) (place : Place) :
    framesOver (fun place frame => (entry place).toList ++ frame) .root visited place.scopes =
      framesAt entry visited place := by
  have hframe : ∀ scope, frameOf (fun place frame => (entry place).toList ++ frame) visited scope []
      = entriesOf entry visited scope := by
    intro scope
    rw [frameOf, foldl_entries, List.append_nil]
    rfl
  simp only [framesOver, framesAt, FrameStack.root, List.modifyHead_cons, hframe]

theorem entriesOf_refined (before : List Place) (scope : Option (List Nat))
    (h : ∀ place : Place, entry place.refined = entry place) :
    entriesOf entry (before.map Place.refined) scope = entriesOf entry before scope := by
  have hpath : ∀ place : Place, place.refined.scopePath = place.scopePath := by
    intro place
    simp [Place.scopePath, Place.refined, Function.comp_def]
  simp only [entriesOf, List.filter_map, List.filterMap_map, Function.comp_def, hpath, h]

theorem framesAt_refined (before : List Place) (place : Place)
    (h : ∀ place : Place, entry place.refined = entry place) :
    framesAt entry (before.map Place.refined) place.refined = framesAt entry before place := by
  simp only [framesAt, entriesOf_refined entry before _ h, Place.refined, List.map_map,
    Function.comp_def]

end Entries

/-! ### Settled places -/

theorem Node.recordedLine?_refined (node : Node) :
    node.refined.recordedLine? = node.recordedLine? := by
  simp only [recordedLine?, moduleDefinition?_refined, variableName?_refined, line_refined]

theorem modulePathOf_refined (place : Place) :
    modulePathOf place.refined.scopes = modulePathOf place.scopes := by
  have hsegments : ∀ scope : Enclosure,
      Enclosure.segments ⟨scope.path, scope.node.refined⟩ = scope.segments := by
    intro scope
    rw [Enclosure.segments, Node.moduleDefinition?_refined]
    rfl
  simp only [modulePathOf, Place.refined, ← List.map_reverse, List.flatMap_map, hsegments]

theorem Place.aliasEntry_refined (outer : List String) (place : Place) :
    place.refined.aliasEntry outer = place.aliasEntry outer := by
  have hnode : place.refined.node = place.node.refined := rfl
  have hpath : place.refined.fullPath outer = place.fullPath outer := by
    funext segments
    rw [fullPath, fullPath, modulePathOf_refined]
  rw [aliasEntry, aliasEntry, hnode, Node.moduleDefinition?_refined, Node.binding?_refined, hpath]

theorem Place.importTarget?_refined (place : Place) :
    place.refined.node.importTarget? = place.node.importTarget? :=
  Node.importTarget?_refined place.node

/-- The nodes at the places of a tree are its occurrences in order. -/
theorem Node.map_node_places (tree : Node) : tree.places.map (·.node) = tree.occurrences := by
  have hside : ∀ (path : List Nat) (scopes : List Enclosure) (i : Nat) (nodes : List Node),
      (Place.sideBySide id path scopes i nodes).map (·.node) = nodes := by
    intro path scopes i nodes
    induction nodes generalizing i with
    | nil => rfl
    | cons node nodes ih => rw [Place.sideBySide, List.map_cons, ih]; rfl
  have key : ∀ (limit : Nat) (place : Place),
      (Place.upTo id limit place).map (·.node) = preorder limit place.node := by
    intro limit
    induction limit with
    | zero => intro place; rfl
    | succ limit ih =>
      intro place
      have hbelow := hside place.path place.inner 0 place.node.children
      simp only [Place.upTo, List.map_cons, List.map_flatMap, preorder, ih]
      rw [← hbelow, List.flatMap_map]
      rfl
  exact key tree.depth ⟨tree, [], []⟩

namespace Metadata

theorem snapshot_scopeAt_start (visited : List Place) (place : Place) (withVars : Bool) :
    (scopeAt .start visited place.scopes).snapshot withVars =
      ⟨some (modulePathName (modulePathOf place.scopes)),
        (framesAt (·.node.importTarget?) visited place).flatten id,
        (framesAt (Place.aliasEntry []) visited place).flatten (·.1),
        if withVars then (scopeAt .start visited place.scopes).currentVars else []⟩ := by
  rw [← framesOver_root, ← framesOver_root]
  rfl

/-- The table of contexts by position: a line has a context when an occurrence on it is neither a
module definition nor a variable, and the last such place gives the module, the imports and the
aliases. -/
theorem contexts_by_position (node : Node) (hnames : node.NamesModules) :
    ∃ tree metadata, build node = .ok (tree, metadata) ∧
      (∀ line, line ∈ metadata.contexts.keys ↔
        ∃ other ∈ tree.occurrences, other.recordedLine? = some line) ∧
      ∀ before place after line, tree.places = before ++ place :: after →
        place.node.recordedLine? = some line →
        (∀ later ∈ after, later.node.recordedLine? ≠ some line) →
        ∃ vars, metadata.contexts.get? line =
          some ⟨some (modulePathName (modulePathOf place.scopes)),
            (framesAt (·.node.importTarget?) before place).flatten id,
            (framesAt (Place.aliasEntry []) before place).flatten (·.1), vars⟩ := by
  refine ⟨_, _, build_eq node (Node.NamesModules.arrivals node hnames), ?_, ?_⟩
  · intro line
    have hrefined : (∃ other ∈ node.settled.occurrences, other.recordedLine? = some line) ↔
        ∃ place ∈ node.arrivals, place.node.recordedLine? = some line := by
      rw [← Node.map_node_places, Node.places_settled, List.map_map]
      simp only [List.mem_map, Function.comp_def, Place.refined]
      constructor
      · rintro ⟨_, ⟨place, hp, rfl⟩, hl⟩
        exact ⟨place, hp, (Node.recordedLine?_refined place.node).symm.trans hl⟩
      · rintro ⟨place, hp, hl⟩
        exact ⟨_, ⟨place, hp, rfl⟩, (Node.recordedLine?_refined place.node).trans hl⟩
    rw [hrefined]
    exact mem_keys_replay .start line [] node.arrivals
  · intro before place after line hsplit hp hlast
    rw [Node.places_settled] at hsplit
    obtain ⟨first, rest, harrivals, rfl, hrest⟩ := List.map_eq_append_iff.mp hsplit
    obtain ⟨origin, later, rfl, rfl, rfl⟩ := List.map_eq_cons_iff.mp hrest
    have hp' : origin.node.recordedLine? = some line :=
      (Node.recordedLine?_refined origin.node).symm.trans hp
    have hlast' : ∀ other ∈ later, other.node.recordedLine? ≠ some line := by
      intro other ho he
      exact hlast other.refined (List.mem_map_of_mem ho)
        ((Node.recordedLine?_refined other.node).trans he)
    have hget := get?_replay_of_last .start line [] first later origin .empty hp' hlast'
    rw [← harrivals] at hget
    rw [List.nil_append, snapshot_scopeAt_start] at hget
    rw [modulePathOf_refined, framesAt_refined _ first origin Place.importTarget?_refined,
      framesAt_refined _ first origin (Place.aliasEntry_refined [])]
    exact ⟨_, hget⟩

/-- A file with an import and a module that holds an alias and a function. -/
def importedFile : Node :=
  .block
    [.call "import" (some [.aliases ["Enum"]]) (some 1),
      .call "defmodule" (some [.aliases ["App", "Web"], .list [.pair (.atom "do") (.block
        [.call "alias" (some [.aliases ["App", "Repo"]]) (some 3),
          .call "def" (some [.call "run" (some [.ident "x" (some 4) none]) (some 4),
            .list [.pair (.atom "do") (.call "all" (some [.ident "x" (some 5) none]) (some 5))]])
            (some 4)])]]) (some 2)]

theorem contexts_by_position_importedFile :
    ∃ tree metadata, build importedFile = .ok (tree, metadata) ∧ ¬ 2 ∈ metadata.contexts.keys ∧
      ∃ vars, metadata.contexts.get? 5 =
        some ⟨some "App.Web", ["Enum"], [("Web", "App.Web"), ("Repo", "App.Repo")], vars⟩ := by
  obtain ⟨tree, metadata, hbuild, hkeys, hplaces⟩ :=
    contexts_by_position importedFile (by decide)
  have htree : tree = importedFile := by
    have hfirst : (build importedFile).map (·.1) = .ok importedFile := rfl
    rw [hbuild] at hfirst
    exact Except.ok.inj hfirst
  subst htree
  refine ⟨importedFile, metadata, hbuild, ?_, ?_⟩
  · rw [hkeys]
    decide
  · -- the call on line 5 is the place with number 22
    exact hplaces (importedFile.places.take 22) _ (importedFile.places.drop 23) 5 rfl rfl (by decide)

end Metadata

end LineScope
