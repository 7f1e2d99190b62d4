import LineScope.Proofs.Analysis.Step

/-!
# The whole walk

A walk that needs no missing name returns the settled tree, leaves the scope state that belongs to
the place behind the tree, and has written its tables arrival by arrival.  The induction is on the
depth limit; within one node it is on the list of children.
-/

namespace LineScope

/-- A table behind some places: every arrival writes, in the state that belongs to the place. -/
def replay {τ : Type} (write : Scope → Node → τ → τ) (base : Scope) :
    (visited places : List Place) → τ → τ
  | _, [], table => table
  | visited, place :: places, table =>
    replay write base (visited ++ [place]) places
      (write (scopeAt base visited place.scopes) place.node table)

theorem replay_append {τ : Type} (write : Scope → Node → τ → τ) (base : Scope)
    (visited first second : List Place) (table : τ) :
    replay write base visited (first ++ second) table =
      replay write base (visited ++ first) second (replay write base visited first table) := by
  induction first generalizing visited table with
  | nil => simp [replay]
  | cons place first ih => simp [replay, ih]

namespace Metadata

/-- The metadata behind some places, within some scopes. -/
def behind (base : Scope) (visited places : List Place) (scopes : List Enclosure)
    (metadata : Metadata) : Metadata :=
  ⟨scopeAt base (visited ++ places) scopes,
    replay writeDefinitions base visited places metadata.definitions,
    replay writeContext base visited places metadata.contexts⟩

theorem behind_behind (base : Scope) (visited first second : List Place)
    (scopes inner : List Enclosure) (metadata : Metadata) :
    behind base (visited ++ first) second scopes (behind base visited first inner metadata) =
      behind base visited (first ++ second) scopes metadata := by
  simp [behind, replay_append]

/-- A visit that returns the settled node and leaves the metadata that belong behind it. -/
def RunsAt (base : Scope) (limit : Nat) (visit : Node.Visit ScopeError Metadata) (node : Node)
    (path : List Nat) (scopes : List Enclosure) : Prop :=
  ∀ (visited : List Place) (metadata : Metadata),
    metadata.scope = scopeAt base visited scopes → Fresh visited path →
      visit node metadata = .ok (node.settled,
        metadata.behind base visited
          (Place.upTo Node.normalizeDefinition limit ⟨node.normalizeDefinition, path, scopes⟩) scopes)

theorem Fresh.sibling (limit : Nat) (visited : List Place) (path : List Nat)
    (scopes : List Enclosure) (node : Node) (i j : Nat) (hij : i ≠ j)
    (hw : Place.WellPlaced ⟨node, path ++ [i], scopes⟩) (hv : Fresh visited (path ++ [j])) :
    Fresh (visited ++ Place.upTo Node.normalizeDefinition limit ⟨node, path ++ [i], scopes⟩)
      (path ++ [j]) := by
  intro other ho
  rcases List.mem_append.mp ho with ho | ho
  · exact hv other ho
  · obtain ⟨hwo, hp, _⟩ := Place.upTo_spec _ limit _ other hw ho
    exact ⟨hwo, fun h => hij (Place.eq_of_prefix_of_prefix path other.path i j hp h)⟩

theorem visitAll_runs (base : Scope) (limit : Nat) (visit : Node.Visit ScopeError Metadata)
    (path : List Nat) (scopes : List Enclosure) (nodes : List Node) (i : Nat)
    (visited : List Place) (metadata : Metadata)
    (hw : ∀ node j, Place.WellPlaced ⟨node, path ++ [j], scopes⟩)
    (hvisit : ∀ place ∈ Place.sideBySide id path scopes i nodes,
      RunsAt base limit visit place.node place.path scopes)
    (hscope : metadata.scope = scopeAt base visited scopes)
    (hv : ∀ j, i ≤ j → Fresh visited (path ++ [j])) :
    Node.visitAll visit nodes metadata =
      .ok (nodes.map Node.settled, metadata.behind base visited
        ((Place.sideBySide Node.normalizeDefinition path scopes i nodes).flatMap
          (Place.upTo Node.normalizeDefinition limit)) scopes) := by
  induction nodes generalizing i visited metadata with
  | nil =>
    have hself : metadata.behind base visited [] scopes = metadata := by
      rw [behind, List.append_nil, ← hscope]
      rfl
    simp only [Node.visitAll, List.map_nil, Place.sideBySide, List.flatMap_nil, hself]
  | cons node nodes ih =>
    have hfirst := hvisit _ List.mem_cons_self visited metadata hscope (hv i (Nat.le_refl _))
    have hrest := ih (i + 1)
      (visited ++ Place.upTo Node.normalizeDefinition limit
        ⟨node.normalizeDefinition, path ++ [i], scopes⟩)
      (metadata.behind base visited (Place.upTo Node.normalizeDefinition limit
        ⟨node.normalizeDefinition, path ++ [i], scopes⟩) scopes)
      (fun place hp => hvisit place (List.mem_cons_of_mem _ hp)) rfl
      (fun j hj => Fresh.sibling limit visited path scopes _ i j (by omega) (hw _ i)
        (hv j (by omega)))
    dsimp only [id] at hfirst
    simp only [Node.visitAll, hfirst, bind, Except.bind]
    rw [hrest]
    simp only [pure, Except.pure, List.map_cons, Place.sideBySide, List.flatMap_cons, behind_behind]

theorem Fresh.child (visited : List Place) (place : Place) (hv : Fresh visited place.path)
    (hw : place.WellPlaced) (i : Nat) : Fresh (visited ++ [place]) (place.path ++ [i]) := by
  intro other ho
  rcases List.mem_append.mp ho with ho | ho
  · obtain ⟨hwo, hp⟩ := hv other ho
    exact ⟨hwo, fun h => hp ((List.prefix_append _ _).trans h)⟩
  · rw [List.mem_singleton.mp ho]
    refine ⟨hw, fun h => ?_⟩
    have hlen := h.length_le
    rw [List.length_append, List.length_singleton] at hlen
    omega

/-- The run lemma: down to a depth, a walk over a node runs as it belongs at the node's place. -/
theorem walk_runs (base : Scope) (hb : base.IsOpen) (limit : Nat) (node : Node) (path : List Nat)
    (scopes : List Enclosure) (hdepth : node.depth ≤ limit)
    (hw : Place.WellPlaced ⟨node.normalizeDefinition, path, scopes⟩)
    (hnamed : ∀ other ∈ Place.upTo Node.normalizeDefinition limit
      ⟨node.normalizeDefinition, path, scopes⟩, other.node.lacksName = false) :
    RunsAt base limit (Node.walk visitDown visitUp .tooDeep limit) node path scopes := by
  induction limit generalizing node path scopes with
  | zero =>
    have hpos := node.one_le_depth
    omega
  | succ limit ih =>
    intro visited metadata hscope hv
    obtain ⟨place, hplace⟩ :
        ∃ place : Place, place = ⟨node.normalizeDefinition, path, scopes⟩ := ⟨_, rfl⟩
    obtain ⟨rfl, rfl, hnode⟩ :
        path = place.path ∧ scopes = place.scopes ∧ node.normalizeDefinition = place.node := by
      rw [hplace]
      exact ⟨rfl, rfl, rfl⟩
    rw [← hplace] at hw hnamed ⊢
    have hself : place.node.lacksName = false := hnamed place List.mem_cons_self
    have hdown : visitDown node metadata =
        .ok (place.node, metadata.behind base visited [place] place.inner) := by
      rw [visitDown_eq, hnode, arrive_eq base visited place metadata hb hscope hw hv hself]
      simp only [Except.map, behind, replay, hscope]
    have hvisit : ∀ child ∈ Place.sideBySide id place.path place.inner 0 place.node.children,
        RunsAt base limit (Node.walk visitDown visitUp .tooDeep limit) child.node child.path
          place.inner := by
      intro child hc
      obtain ⟨j, other, _, hm, rfl⟩ := Place.mem_sideBySide _ _ _ _ _ child hc
      have hlt : other.depth < node.depth :=
        Node.depth_lt_of_mem_children_normalizeDefinition node other (hnode ▸ hm)
      refine ih other _ _ (by omega) (Place.WellPlaced.child place hw _ j) ?_
      intro inside hi
      refine hnamed inside (List.mem_cons_of_mem _ (List.mem_flatMap.mpr ⟨_, ?_, hi⟩))
      exact Place.mem_sideBySide_arrive _ _ _ _ _ _ hc
    have hchildren := visitAll_runs base limit _ place.path place.inner place.node.children 0
      (visited ++ [place]) (metadata.behind base visited [place] place.inner)
      (fun other j => Place.WellPlaced.child place hw other j) hvisit rfl
      (fun j _ => Fresh.child visited place hv hw j)
    rw [behind_behind] at hchildren
    have hup := visitUp_eq base (visited ++ Place.upTo Node.normalizeDefinition (limit + 1) place)
      place (metadata.behind base visited (Place.upTo Node.normalizeDefinition (limit + 1) place)
        place.inner) hb rfl hself
    simp only [Node.walk, hdown, Node.visitChildren_eq, bind, Except.bind]
    rw [hchildren, Node.settled_eq, hnode]
    exact hup

/-- A walk over a tree that needs no missing name, from any open state. -/
theorem walk_eq (node : Node) (metadata : Metadata) (hopen : metadata.scope.IsOpen)
    (hnamed : ∀ place ∈ node.arrivals, place.node.lacksName = false) :
    walk node metadata =
      .ok (node.settled, metadata.behind metadata.scope [] node.arrivals []) := by
  have hruns := walk_runs metadata.scope hopen node.depth node [] [] (Nat.le_refl _)
    (Place.wellPlaced_root _) hnamed
  refine hruns [] metadata (scopeAt_root _).symm ?_
  intro place hp
  cases hp

theorem build_eq (node : Node)
    (hnamed : ∀ place ∈ node.arrivals, place.node.lacksName = false) :
    build node = .ok (node.settled, start.behind .start [] node.arrivals []) := by
  have hbalanced : (start.behind .start [] node.arrivals []).scope.isBalanced = true := by
    simp [behind, scopeAt, modulePathOf, framesOver, Scope.start, FrameStack.root, Scope.isBalanced]
  rw [build, walk_eq node start Scope.start_isOpen hnamed]
  simp only [bind, Except.bind]
  rw [if_pos (by exact hbalanced)]
  rfl

end Metadata

/-- What passes from a node to the nodes below its normal form gives what holds of the normal form at
every arrival. -/
theorem Node.forall_arrivals {P Q : Node → Prop}
    (hnode : ∀ node : Node, P node → Q node.normalizeDefinition)
    (hchild : ∀ node child : Node, P node → child ∈ node.normalizeDefinition.children → P child)
    (node : Node) (h : P node) : ∀ place ∈ node.arrivals, Q place.node := by
  have key : ∀ (limit : Nat) (node : Node) (path : List Nat) (scopes : List Enclosure),
      P node → ∀ place ∈ Place.upTo normalizeDefinition limit
        ⟨node.normalizeDefinition, path, scopes⟩, Q place.node := by
    intro limit
    induction limit with
    | zero =>
      intro node path scopes _ place hp
      cases hp
    | succ limit ih =>
      intro node path scopes hn place hp
      rcases List.mem_cons.mp hp with rfl | hp
      · exact hnode node hn
      · obtain ⟨child, hc, hp⟩ := List.mem_flatMap.mp hp
        obtain ⟨j, other, _, hm, rfl⟩ := Place.mem_sideBySide _ _ _ _ _ child hc
        exact ih other _ _ (hchild node other hn hm) place hp
  exact key node.depth node [] [] h

/-- A tree whose module names have segments needs no missing name at any place. -/
theorem Node.NamesModules.arrivals (node : Node) (h : node.NamesModules) :
    ∀ place ∈ node.arrivals, place.node.lacksName = false :=
  Node.forall_arrivals (P := NamesModules) (Q := fun node => node.lacksName = false)
    NamesModules.lacksName_normalizeDefinition NamesModules.child node h

end LineScope
