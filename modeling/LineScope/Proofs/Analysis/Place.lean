import LineScope.Proofs.Analysis.Normal

/-!
# Places in a tree

A place is an occurrence of a node in a tree: the node, the way down to it, and the definitions that
the way leads through.  These definitions are the scopes of the place, the innermost one first.  The
places of a tree are listed in the order in which a walk comes to them, each before the places below
it and a computed head before the arguments.
-/

namespace LineScope

/-- A definition around a place: where it stands and what it is. -/
structure Enclosure where
  path : List Nat
  node : Node
deriving Repr

/-- An occurrence of a node: the numbers of the children on the way down to it, and the definitions
on that way, innermost first. -/
structure Place where
  node : Node
  path : List Nat
  scopes : List Enclosure
deriving Repr

namespace Place

/-- The definition at a place, as a scope of the places below. -/
def enclosure (place : Place) : Enclosure := ⟨place.path, place.node⟩

/-- The scopes of the places directly below a place. -/
def inner (place : Place) : List Enclosure :=
  if place.node.isDefinition then place.enclosure :: place.scopes else place.scopes

/-- The places of nodes that stand next to each other, from a number on; `arrive` is the form in
which a node is looked at. -/
def sideBySide (arrive : Node → Node) (path : List Nat) (scopes : List Enclosure) :
    Nat → List Node → List Place
  | _, [] => []
  | i, node :: nodes =>
    ⟨arrive node, path ++ [i], scopes⟩ :: sideBySide arrive path scopes (i + 1) nodes

/-- The places directly below a place. -/
def below (arrive : Node → Node) (place : Place) : List Place :=
  sideBySide arrive place.path place.inner 0 place.node.children

/-- A place and the places below it, down to a depth. -/
def upTo (arrive : Node → Node) : Nat → Place → List Place
  | 0, _ => []
  | limit + 1, place => place :: (place.below arrive).flatMap (upTo arrive limit)

/-- The place of the innermost scope, none outside all definitions. -/
def scopePath (place : Place) : Option (List Nat) := place.scopes.head?.map (·.path)

end Place

namespace Node

/-- The places of a tree. -/
def places (tree : Node) : List Place := Place.upTo id tree.depth ⟨tree, [], []⟩

/-- The places that the analysis comes to, each with its node in the form that is analysed. -/
def arrivals (node : Node) : List Place :=
  Place.upTo normalizeDefinition node.depth ⟨node.normalizeDefinition, [], []⟩

end Node

namespace Place

/-! ### Depth limits -/

theorem mem_sideBySide (arrive : Node → Node) (path : List Nat) (scopes : List Enclosure) (i : Nat)
    (nodes : List Node) (place : Place) (h : place ∈ sideBySide arrive path scopes i nodes) :
    ∃ j node, i ≤ j ∧ node ∈ nodes ∧ place = ⟨arrive node, path ++ [j], scopes⟩ := by
  induction nodes generalizing i with
  | nil => cases h
  | cons node nodes ih =>
    rcases List.mem_cons.mp h with rfl | h
    · exact ⟨i, node, Nat.le_refl _, List.mem_cons_self, rfl⟩
    · obtain ⟨j, other, hj, hm, he⟩ := ih (i + 1) h
      exact ⟨j, other, by omega, List.mem_cons_of_mem _ hm, he⟩

theorem mem_sideBySide_arrive (arrive : Node → Node) (path : List Nat) (scopes : List Enclosure)
    (i : Nat) (nodes : List Node) (place : Place) (h : place ∈ sideBySide id path scopes i nodes) :
    ⟨arrive place.node, place.path, scopes⟩ ∈ sideBySide arrive path scopes i nodes := by
  induction nodes generalizing i with
  | nil => cases h
  | cons node nodes ih =>
    rcases List.mem_cons.mp h with rfl | h
    · exact List.mem_cons_self
    · exact List.mem_cons_of_mem _ (ih (i + 1) h)

theorem upTo_eq_of_depth_le (arrive : Node → Node) (harrive : ∀ n, (arrive n).depth ≤ n.depth)
    (a b : Nat) (place : Place) (ha : place.node.depth ≤ a) (hb : place.node.depth ≤ b) :
    upTo arrive a place = upTo arrive b place := by
  induction a generalizing b place with
  | zero =>
    have hpos := place.node.one_le_depth
    omega
  | succ a ih =>
    cases b with
    | zero =>
      have hpos := place.node.one_le_depth
      omega
    | succ b =>
      simp only [upTo]
      congr 1
      refine List.flatMap_congr fun child hc => ?_
      obtain ⟨j, node, _, hm, rfl⟩ := mem_sideBySide _ _ _ _ _ child hc
      have hlt := Node.depth_lt_of_mem_children place.node node hm
      have hle := harrive node
      exact ih b _ (by dsimp only; omega) (by dsimp only; omega)

/-! ### Paths -/

/-- The scopes of a place stand on the way down to it, each above the ones listed before it. -/
def WellPlaced (place : Place) : Prop :=
  (place.path :: place.scopes.map (·.path)).Pairwise fun a b => b <+: a ∧ b ≠ a

theorem wellPlaced_root (node : Node) : WellPlaced ⟨node, [], []⟩ :=
  List.pairwise_singleton _ _

theorem WellPlaced.child (place : Place) (h : place.WellPlaced) (node : Node) (i : Nat) :
    WellPlaced ⟨node, place.path ++ [i], place.inner⟩ := by
  have hall : ∀ path ∈ place.path :: place.scopes.map (·.path),
      path <+: place.path ++ [i] ∧ path ≠ place.path ++ [i] := by
    intro path hp
    have hle : path <+: place.path := by
      rcases List.mem_cons.mp hp with rfl | hp
      · exact List.prefix_rfl
      · exact ((List.pairwise_cons.mp h).1 path hp).1
    refine ⟨hle.trans (List.prefix_append _ _), ?_⟩
    intro he
    have hlen := hle.length_le
    rw [he, List.length_append, List.length_singleton] at hlen
    omega
  unfold WellPlaced inner
  dsimp only
  split
  · exact List.pairwise_cons.mpr ⟨hall, h⟩
  · refine List.pairwise_cons.mpr ⟨?_, (List.pairwise_cons.mp h).2⟩
    intro path hp
    exact hall path (List.mem_cons_of_mem _ hp)

theorem WellPlaced.not_prefix_scope (place : Place) (h : place.WellPlaced) (path : List Nat)
    (hfresh : ¬ path <+: place.path) : place.scopePath ≠ some path := by
  intro he
  cases hs : place.scopes with
  | nil => simp [scopePath, hs] at he
  | cons scope scopes =>
    have hp : scope.path = path := by simpa [scopePath, hs] using he
    have hmem : path ∈ place.scopes.map (·.path) := by simp [hs, hp]
    exact hfresh ((List.pairwise_cons.mp h).1 path hmem).1

theorem WellPlaced.scopePath_ne (place : Place) (h : place.WellPlaced) :
    place.scopePath ≠ some place.path := by
  intro he
  cases hs : place.scopes with
  | nil => simp [scopePath, hs] at he
  | cons scope scopes =>
    have hp : scope.path = place.path := by simpa [scopePath, hs] using he
    have hmem : place.path ∈ place.scopes.map (·.path) := by simp [hs, hp]
    exact ((List.pairwise_cons.mp h).1 place.path hmem).2 rfl

theorem eq_of_prefix_of_prefix (path other : List Nat) (i j : Nat) (hi : path ++ [i] <+: other)
    (hj : path ++ [j] <+: other) : i = j := by
  have hle : (path ++ [i]).length ≤ (path ++ [j]).length := by simp
  have hp := List.prefix_of_prefix_length_le hi hj hle
  have he : path ++ [i] = path ++ [j] := hp.eq_of_length (by simp)
  simpa using he

/-- The places below a place stand under its path, and within its scopes. -/
theorem upTo_spec (arrive : Node → Node) (limit : Nat) (place other : Place)
    (hp : place.WellPlaced) (h : other ∈ upTo arrive limit place) :
    other.WellPlaced ∧ place.path <+: other.path ∧ place.scopes <:+ other.scopes := by
  induction limit generalizing place with
  | zero => cases h
  | succ limit ih =>
    rcases List.mem_cons.mp h with rfl | h
    · exact ⟨hp, List.prefix_rfl, List.suffix_rfl⟩
    · obtain ⟨child, hc, h⟩ := List.mem_flatMap.mp h
      obtain ⟨j, node, _, _, rfl⟩ := mem_sideBySide _ _ _ _ _ child hc
      obtain ⟨hw, hpath, hscopes⟩ := ih _ (WellPlaced.child place hp _ j) h
      refine ⟨hw, (List.prefix_append _ _).trans hpath, ?_⟩
      have hinner : place.scopes <:+ place.inner := by
        unfold inner
        split
        · exact List.suffix_cons _ _
        · exact List.suffix_rfl
      exact hinner.trans hscopes

/-! ### Places in the settled tree -/

/-- The place of the settled node. -/
def refined (place : Place) : Place :=
  ⟨place.node.refined, place.path, place.scopes.map fun scope => ⟨scope.path, scope.node.refined⟩⟩

theorem inner_refined (place : Place) :
    place.refined.inner = place.inner.map fun scope => ⟨scope.path, scope.node.refined⟩ := by
  unfold inner
  rw [refined, Node.isDefinition_refined]
  split <;> rfl

theorem sideBySide_settled (path : List Nat) (scopes : List Enclosure) (i : Nat)
    (nodes : List Node) :
    sideBySide id path (scopes.map fun scope => ⟨scope.path, scope.node.refined⟩) i
        (nodes.map Node.settled) =
      (sideBySide Node.normalizeDefinition path scopes i nodes).map refined := by
  induction nodes generalizing i with
  | nil => rfl
  | cons node nodes ih =>
    simp only [List.map_cons, sideBySide, ih]
    rw [id, Node.settled_eq]
    rfl

theorem upTo_refined (limit : Nat) (place : Place) :
    upTo id limit place.refined = (upTo Node.normalizeDefinition limit place).map refined := by
  induction limit generalizing place with
  | zero => rfl
  | succ limit ih =>
    have hbelow : place.refined.below id = (place.below Node.normalizeDefinition).map refined := by
      rw [below, inner_refined]
      show sideBySide id place.path _ 0 place.node.refined.children = _
      rw [Node.children_refined]
      exact sideBySide_settled place.path place.inner 0 place.node.children
    simp only [upTo, List.map_cons, hbelow, List.flatMap_map, List.map_flatMap, ih]

end Place

/-- The places of the settled tree are those that the analysis comes to, with settled nodes. -/
theorem Node.places_settled (node : Node) :
    node.settled.places = node.arrivals.map Place.refined := by
  have hdepth := node.depth_settled_le
  rw [places, arrivals, ← Place.upTo_refined]
  rw [settled_eq] at hdepth ⊢
  exact Place.upTo_eq_of_depth_le id (fun n => Nat.le_refl _) _ _ _ (Nat.le_refl _) hdepth

end LineScope
