import LineScope.Proofs.Analysis.MissingName

/-!
# The walk as a tour

What the walk does to the metadata is a list of steps: one on the way down to each node, one on the
way up from it, and between them the steps of its children.  The walk runs these steps one after the
other, so two trees with the same tour are analysed alike.
-/

namespace LineScope

namespace Metadata

/-- One step of the walk. -/
abbrev Step := Metadata → Except ScopeError Metadata

/-- Several steps, one after the other. -/
def run : List Step → Step
  | [], metadata => .ok metadata
  | step :: steps, metadata => step metadata >>= run steps

theorem run_eq_foldlM (steps : List Step) (metadata : Metadata) :
    run steps metadata = steps.foldlM (fun metadata step => step metadata) metadata := by
  induction steps generalizing metadata with
  | nil => rfl
  | cons step steps ih => rw [run, List.foldlM_cons, funext ih]

theorem run_append (first second : List Step) (metadata : Metadata) :
    run (first ++ second) metadata = run first metadata >>= run second := by
  rw [funext (run_eq_foldlM second), run_eq_foldlM, run_eq_foldlM, List.foldlM_append]

/-- What the walk does to the metadata on the way up: it closes the scope of a definition. -/
def depart (node : Node) : Step := fun metadata =>
  match node.moduleDefinition? with
  | some (segments, _) => metadata.withScope (metadata.scope.leave segments.length segments.length)
  | none =>
    match node.functionName? with
    | some _ => metadata.withScope (metadata.scope.leave 1 0)
    | none => .ok metadata

theorem visitUp_eq_depart (node : Node) (metadata : Metadata) :
    visitUp node metadata = (metadata.depart node).map fun next => (node, next) := by
  unfold visitUp depart Node.functionName?
  cases node.moduleDefinition? with
  | some found =>
    dsimp only
    cases metadata.withScope (metadata.scope.leave found.1.length found.1.length) <;> rfl
  | none =>
    cases node.functionDefinition? with
    | some function =>
      dsimp only [Option.map]
      cases metadata.withScope (metadata.scope.leave 1 0) <;> rfl
    | none => rfl

theorem depart_refined (node : Node) (metadata : Metadata) :
    metadata.depart node.refined = metadata.depart node := by
  simp only [depart, Node.moduleDefinition?_refined, Node.functionName?_refined]

end Metadata

namespace Node

/-- The steps of the walk over a node, down to a depth. -/
def tourTo : Nat → Node → List Metadata.Step
  | 0, _ => []
  | limit + 1, node =>
    (·.arrive node.normalizeDefinition) ::
      (node.normalizeDefinition.children.flatMap (tourTo limit) ++
        [Metadata.depart node.normalizeDefinition])

/-- The steps of the walk over a node. -/
def tour (node : Node) : List Metadata.Step := tourTo node.depth node

theorem tourTo_eq_tour (limit : Nat) (node : Node) (h : node.depth ≤ limit) :
    tourTo limit node = node.tour := by
  have key : ∀ (a b : Nat) (node : Node), node.depth ≤ a → node.depth ≤ b →
      tourTo a node = tourTo b node := by
    intro a
    induction a with
    | zero =>
      intro b node ha _
      have hpos := one_le_depth node
      omega
    | succ a ih =>
      intro b node ha hb
      cases b with
      | zero =>
        have hpos := one_le_depth node
        omega
      | succ b =>
        have hchildren : node.normalizeDefinition.children.flatMap (tourTo a) =
            node.normalizeDefinition.children.flatMap (tourTo b) := by
          refine List.flatMap_congr fun child hc => ?_
          have hlt := depth_lt_of_mem_children_normalizeDefinition node child hc
          exact ih b child (by omega) (by omega)
        simp only [tourTo, hchildren]
  exact key limit node.depth node h (Nat.le_refl _)

/-- A tour goes down to a node, through its children in order, and up again. -/
theorem tour_eq (node : Node) :
    node.tour = (·.arrive node.normalizeDefinition) ::
      (node.normalizeDefinition.children.flatMap tour ++
        [Metadata.depart node.normalizeDefinition]) := by
  obtain ⟨limit, hl⟩ : ∃ limit, node.depth = limit + 1 := ⟨_, depth_eq node⟩
  have hchildren : node.normalizeDefinition.children.flatMap (tourTo limit) =
      node.normalizeDefinition.children.flatMap tour := by
    refine List.flatMap_congr fun child hc => tourTo_eq_tour limit child ?_
    have hlt := depth_lt_of_mem_children_normalizeDefinition node child hc
    omega
  rw [tour, hl, tourTo, hchildren]

end Node

namespace Metadata

theorem visitAll_eq_run (visit : Node.Visit ScopeError Metadata) (nodes : List Node)
    (metadata : Metadata)
    (hvisit : ∀ node ∈ nodes, ∀ metadata,
      visit node metadata = (run node.tour metadata).map fun next => (node.settled, next)) :
    Node.visitAll visit nodes metadata =
      (run (nodes.flatMap Node.tour) metadata).map fun next => (nodes.map Node.settled, next) := by
  simp only [run_eq_foldlM] at hvisit ⊢
  have hall := Node.visitAll_eq_foldlM visit _ id Node.settled Node.tour nodes metadata hvisit
  rwa [List.map_id] at hall

/-- The walk over a node runs its tour and returns the settled node. -/
theorem walk_eq_run (node : Node) (metadata : Metadata) :
    walk node metadata = (run node.tour metadata).map fun next => (node.settled, next) := by
  have key : ∀ (limit : Nat) (node : Node) (metadata : Metadata), node.depth ≤ limit →
      Node.walk visitDown visitUp .tooDeep limit node metadata =
        (run node.tour metadata).map fun next => (node.settled, next) := by
    intro limit
    induction limit with
    | zero =>
      intro node metadata hdepth
      have hpos := node.one_le_depth
      omega
    | succ limit ih =>
      intro node metadata hdepth
      rw [Node.tour_eq, Node.settled_eq, Node.walk, visitDown_eq, run]
      cases metadata.arrive node.normalizeDefinition with
      | error e => rfl
      | ok inside =>
        have hchildren := visitAll_eq_run (Node.walk visitDown visitUp .tooDeep limit)
          node.normalizeDefinition.children inside (fun child hc metadata => ih child metadata (by
            have hlt := Node.depth_lt_of_mem_children_normalizeDefinition node child hc
            omega))
        show (Node.visitChildren _ node.normalizeDefinition inside >>= fun r => _) =
          (run (_ ++ _) inside).map _
        rw [Node.visitChildren_eq, hchildren, run_append]
        cases run (node.normalizeDefinition.children.flatMap Node.tour) inside with
        | error e => rfl
        | ok behind =>
          show visitUp node.normalizeDefinition.refined behind = _
          rw [visitUp_eq_depart, depart_refined]
          show _ = (depart node.normalizeDefinition behind >>= run []).map _
          cases depart node.normalizeDefinition behind <;> rfl
  exact key node.depth node metadata (Nat.le_refl _)

/-- An analysis that returns has run the tour of its tree. -/
theorem build_ok_iff (node tree : Node) (metadata : Metadata) :
    build node = .ok (tree, metadata) ↔
      tree = node.settled ∧ run node.tour .start = .ok metadata ∧
        metadata.scope.isBalanced = true := by
  rw [build, walk_eq_run]
  cases run node.tour .start with
  | error e =>
    constructor
    · intro h
      cases h
    · rintro ⟨_, h, _⟩
      cases h
  | ok found =>
    show (if found.scope.isBalanced then Except.ok (node.settled, found)
      else .error (ScopeError.unbalanced found.scope)) = _ ↔ _
    constructor
    · intro h
      split at h
      · rename_i hbalanced
        cases h
        exact ⟨rfl, rfl, hbalanced⟩
      · cases h
    · rintro ⟨rfl, h, hbalanced⟩
      cases h
      rw [if_pos hbalanced]

end Metadata

end LineScope
