import LineScope.Proofs.Node.EulerTour

/-!
# Walks as folds

As long as its calls return the nodes that they are given, a walk is a fold of the calls over the
Euler tour of the tree.  Calls on one way only are then folded over the nodes in preorder or in
postorder, and calls that see different parts of the state do not disturb each other.
-/

namespace LineScope.Node

section Folds

variable {ε σ τ : Type}

/-- A visit that returns the node it is given, whenever it returns. -/
def Keeps (visit : Visit ε σ) : Prop :=
  ∀ node state found, visit node state = .ok found → found.1 = node

/-- A visit that never fails. -/
def Returns (visit : Visit ε σ) : Prop := ∀ node state, ∃ found, visit node state = .ok found

/-- What a visit makes of the state. -/
def effect (visit : Visit ε σ) (state : σ) (node : Node) : Except ε σ :=
  (visit node state).map (·.2)

/-- What the call at a stop makes of the state. -/
def Stop.act (pre post : Visit ε σ) (state : σ) (stop : Stop) : Except ε σ :=
  match stop.heading with
  | .down => effect pre state stop.node
  | .up => effect post state stop.node

theorem map_pair_ok_iff (tree : Node) (result : Except ε σ) (found : Node × σ) :
    (result.map fun next => (tree, next)) = .ok found ↔ found.1 = tree ∧ result = .ok found.2 := by
  obtain ⟨node, next⟩ := found
  cases result with
  | error e => simp [Except.map]
  | ok state =>
    simp only [Except.map, Except.ok.injEq, Prod.mk.injEq]
    exact ⟨fun h => ⟨h.1.symm, h.2⟩, fun h => ⟨h.1.symm, h.2⟩⟩

theorem Keeps.eq_effect {visit : Visit ε σ} (h : Keeps visit) (node : Node) (state : σ) :
    visit node state = (effect visit state node).map fun next => (node, next) := by
  unfold effect
  cases hv : visit node state with
  | error e => rfl
  | ok found =>
    have hnode := h node state found hv
    rw [← hnode]
    rfl

theorem keeps_of_eq_effect {visit : Visit ε σ} (h : ∀ node state,
    visit node state = (effect visit state node).map fun next => (node, next)) : Keeps visit := by
  intro node state found hfound
  rw [h] at hfound
  exact ((map_pair_ok_iff node _ found).mp hfound).1

theorem keeps_keep : Keeps (keep : Visit ε σ) := by
  intro node state found h
  cases h
  rfl

/-- A walk folds its calls over the stops at a node. -/
theorem walk_eq_foldlM_stops (pre post : Visit ε σ) (hpre : Keeps pre) (hpost : Keeps post)
    (tooDeep : ε) (limit : Nat) (path : List Nat) (node : Node) (state : σ)
    (h : node.depth ≤ limit) :
    walk pre post tooDeep limit node state =
      ((stopsFrom path node).foldlM (Stop.act pre post) state).map fun next => (node, next) := by
  induction limit generalizing path node state with
  | zero =>
    have hd := depth_eq node
    omega
  | succ limit ih =>
    rw [stopsFrom_eq, List.foldlM_cons, walk, hpre.eq_effect]
    show _ = (effect pre state node >>= _).map _
    cases effect pre state node with
    | error e => rfl
    | ok inside =>
      have hchildren := visitAll_eq_foldlM (walk pre post tooDeep limit) (Stop.act pre post)
        Prod.fst Prod.fst (fun child => stopsFrom (path ++ [child.2]) child.1)
        node.children.zipIdx inside fun child hc state => ih _ child.1 state (by
          have hlt := depth_lt_of_mem_zipIdx node child hc
          omega)
      rw [List.zipIdx_map_fst] at hchildren
      show (visitChildren _ node inside >>= fun r => post r.1 r.2) =
        Except.map _ (List.foldlM _ inside _)
      rw [visitChildren_eq, hchildren, List.foldlM_append]
      cases (node.children.zipIdx.flatMap fun child =>
        stopsFrom (path ++ [child.2]) child.1).foldlM (Stop.act pre post) inside with
      | error e => rfl
      | ok behind =>
        show post (node.withChildren node.children) behind = _
        rw [withChildren_children, hpost.eq_effect]
        show _ = Except.map _ (effect post behind node >>= pure)
        rw [bind_pure]

theorem foldlM_act_keep (pre : Visit ε σ) (stops : List Stop) (state : σ) :
    stops.foldlM (Stop.act pre keep) state =
      (stops.filterMap Stop.down?).foldlM (effect pre) state := by
  rw [List.foldlM_filterMap]
  congr 1
  funext state stop
  unfold Stop.act Stop.down?
  cases stop.heading <;> rfl

theorem foldlM_keep_act (post : Visit ε σ) (stops : List Stop) (state : σ) :
    stops.foldlM (Stop.act keep post) state =
      (stops.filterMap Stop.up?).foldlM (effect post) state := by
  rw [List.foldlM_filterMap]
  congr 1
  funext state stop
  unfold Stop.act Stop.up?
  cases stop.heading <;> rfl

theorem walkDown_eq_foldlM (pre : Visit ε σ) (hpre : Keeps pre) (tooDeep : ε) (limit : Nat)
    (tree : Node) (state : σ) (h : tree.depth ≤ limit) :
    walkDown pre tooDeep limit tree state =
      (tree.occurrences.foldlM (effect pre) state).map fun next => (tree, next) := by
  rw [walkDown, walk_eq_foldlM_stops pre keep hpre keeps_keep tooDeep limit [] tree state h,
    foldlM_act_keep, filterMap_down]

theorem walkUp_eq_foldlM (post : Visit ε σ) (hpost : Keeps post) (tooDeep : ε) (limit : Nat)
    (tree : Node) (state : σ) (h : tree.depth ≤ limit) :
    walkUp post tooDeep limit tree state =
      (tree.postorder.foldlM (effect post) state).map fun next => (tree, next) := by
  rw [walkUp, walk_eq_foldlM_stops keep post keeps_keep hpost tooDeep limit [] tree state h,
    foldlM_keep_act, filterMap_up]

/-! ### Two visits side by side -/

/-- A visit that sees the first part of the state only. -/
def onFirst (visit : Visit ε σ) : Visit ε (σ × τ) := fun node state =>
  (visit node state.1).map fun found => (found.1, (found.2, state.2))

/-- A visit that sees the second part of the state only. -/
def onSecond (visit : Visit ε τ) : Visit ε (σ × τ) := fun node state =>
  (visit node state.2).map fun found => (found.1, (state.1, found.2))

theorem effect_onFirst (visit : Visit ε σ) (state : σ × τ) (node : Node) :
    effect (onFirst visit) state node =
      (effect visit state.1 node).map fun next => (next, state.2) := by
  unfold effect onFirst
  cases visit node state.1 <;> rfl

theorem effect_onSecond (visit : Visit ε τ) (state : σ × τ) (node : Node) :
    effect (onSecond visit) state node =
      (effect visit state.2 node).map fun next => (state.1, next) := by
  unfold effect onSecond
  cases visit node state.2 <;> rfl

theorem Keeps.onFirst {visit : Visit ε σ} (h : Keeps visit) :
    Keeps (Node.onFirst visit : Visit ε (σ × τ)) := by
  refine keeps_of_eq_effect fun node state => ?_
  rw [effect_onFirst, Node.onFirst, h.eq_effect]
  cases effect visit state.1 node <;> rfl

theorem Keeps.onSecond {visit : Visit ε τ} (h : Keeps visit) :
    Keeps (Node.onSecond visit : Visit ε (σ × τ)) := by
  refine keeps_of_eq_effect fun node state => ?_
  rw [effect_onSecond, Node.onSecond, h.eq_effect]
  cases effect visit state.2 node <;> rfl

/-- Calls on the way down that see one part of the state and calls on the way up that see the other
do not meet. -/
theorem foldlM_side_by_side (pre : Visit ε σ) (post : Visit ε τ) (stops : List Stop)
    (state result : σ × τ) :
    stops.foldlM (Stop.act (onFirst pre) (onSecond post)) state = .ok result ↔
      (stops.filterMap Stop.down?).foldlM (effect pre) state.1 = .ok result.1 ∧
        (stops.filterMap Stop.up?).foldlM (effect post) state.2 = .ok result.2 := by
  induction stops generalizing state with
  | nil =>
    obtain ⟨first, second⟩ := state
    obtain ⟨first', second'⟩ := result
    simp [pure, Except.pure]
  | cons stop stops ih =>
    obtain ⟨heading, path, node⟩ := stop
    rw [List.foldlM_cons]
    cases heading with
    | down =>
      show (effect (onFirst pre) state node >>= _) = _ ↔
        (effect pre state.1 node >>= _) = _ ∧ _
      rw [effect_onFirst]
      cases effect pre state.1 node with
      | error e => simp [bind, Except.bind, Except.map]
      | ok next => exact ih (next, state.2)
    | up =>
      show (effect (onSecond post) state node >>= _) = _ ↔
        _ ∧ (effect post state.2 node >>= _) = _
      rw [effect_onSecond]
      cases effect post state.2 node with
      | error e => simp [bind, Except.bind, Except.map]
      | ok next => exact ih (state.1, next)

/-! ### The whole walk -/

theorem Returns.effect {visit : Visit ε σ} (h : Returns visit) (state : σ) (node : Node) :
    ∃ next, Node.effect visit state node = .ok next := by
  obtain ⟨found, hfound⟩ := h node state
  exact ⟨found.2, by rw [Node.effect, hfound]; rfl⟩

theorem exists_foldlM_act (pre post : Visit ε σ) (hpre : Returns pre) (hpost : Returns post)
    (stops : List Stop) (state : σ) : ∃ next, stops.foldlM (Stop.act pre post) state = .ok next := by
  induction stops generalizing state with
  | nil => exact ⟨state, rfl⟩
  | cons stop stops ih =>
    obtain ⟨next, hnext⟩ : ∃ next, stop.act pre post state = .ok next := by
      unfold Stop.act
      cases stop.heading with
      | down => exact hpre.effect state stop.node
      | up => exact hpost.effect state stop.node
    rw [List.foldlM_cons, hnext]
    exact ih next

/-- A walk whose calls return the nodes that they are given returns the tree, and folds the calls
over a tour that comes to every occurrence once on the way down and once on the way up.  A walk with
calls on one way only folds them over the nodes in preorder or in postorder, and two such walks with
states of their own are one walk. -/
theorem walk_folds_tour (pre post : Visit ε σ) (other : Visit ε τ) (hpre : Keeps pre)
    (hpost : Keeps post) (hother : Keeps other) (tooDeep : ε) (limit : Nat) (tree : Node)
    (h : tree.depth ≤ limit) :
    ToursOnce tree.eulerTour tree ∧
      (∀ state, walk pre post tooDeep limit tree state =
        (tree.eulerTour.foldlM (Stop.act pre post) state).map fun next => (tree, next)) ∧
      (Returns pre → Returns post → ∀ state, ∃ next,
        walk pre post tooDeep limit tree state = .ok (tree, next)) ∧
      (∀ state, walkDown pre tooDeep limit tree state =
        (tree.occurrences.foldlM (effect pre) state).map fun next => (tree, next)) ∧
      (∀ state, walkUp post tooDeep limit tree state =
        (tree.postorder.foldlM (effect post) state).map fun next => (tree, next)) ∧
      ∀ state found, walk (onFirst pre) (onSecond other) tooDeep limit tree state = .ok found ↔
        walkDown pre tooDeep limit tree state.1 = .ok (found.1, found.2.1) ∧
          walkUp other tooDeep limit tree state.2 = .ok (found.1, found.2.2) := by
  have hwalk := fun state => walk_eq_foldlM_stops pre post hpre hpost tooDeep limit [] tree state h
  refine ⟨toursOnce_eulerTour tree, hwalk, ?_,
    fun state => walkDown_eq_foldlM pre hpre tooDeep limit tree state h,
    fun state => walkUp_eq_foldlM post hpost tooDeep limit tree state h, ?_⟩
  · intro hdown hup state
    obtain ⟨next, hnext⟩ := exists_foldlM_act pre post hdown hup (stopsFrom [] tree) state
    exact ⟨next, by rw [hwalk, hnext]; rfl⟩
  · intro state found
    rw [walk_eq_foldlM_stops _ _ hpre.onFirst hother.onSecond tooDeep limit [] tree state h,
      walkDown_eq_foldlM pre hpre tooDeep limit tree state.1 h,
      walkUp_eq_foldlM other hother tooDeep limit tree state.2 h, map_pair_ok_iff, map_pair_ok_iff,
      map_pair_ok_iff, foldlM_side_by_side, filterMap_down, filterMap_up]
    exact ⟨fun hf => ⟨⟨hf.1, hf.2.1⟩, hf.1, hf.2.2⟩, fun hf => ⟨hf.1.1, hf.1.2, hf.2.2⟩⟩

end Folds

/-- A visit that notes the nodes it comes to. -/
def noting (heading : Heading) : Visit Unit (List (Heading × Node)) := fun node noted =>
  .ok (node, noted ++ [(heading, node)])

/-- A call of a computed head with a pair for its argument. -/
def computedCall : Node :=
  .apply (.ident "f" (some 1) none) (some [.pair (.literal .nil) (.list [])]) (some 1)

theorem keeps_noting (heading : Heading) : Keeps (noting heading) := by
  rintro node noted _ ⟨⟩
  rfl

theorem walk_folds_tour_computedCall :
    computedCall.depth ≤ 3 ∧ ToursOnce computedCall.eulerTour computedCall ∧
      computedCall.eulerTour.foldlM (Stop.act (noting .down) (noting .up)) [] =
        .ok [(.down, computedCall), (.down, .ident "f" (some 1) none),
          (.up, .ident "f" (some 1) none), (.down, .pair (.literal .nil) (.list [])),
          (.down, .literal .nil), (.up, .literal .nil), (.down, .list []), (.up, .list []),
          (.up, .pair (.literal .nil) (.list [])), (.up, computedCall)] := by
  have hdepth : computedCall.depth ≤ 3 := by decide
  obtain ⟨htour, hwalk, -⟩ := walk_folds_tour (noting .down) (noting .up) (noting .up)
    (keeps_noting .down) (keeps_noting .up) (keeps_noting .up) () 3 computedCall hdepth
  refine ⟨hdepth, htour, ?_⟩
  exact ((map_pair_ok_iff computedCall _ (computedCall, _)).mp (hwalk []).symm).2

end LineScope.Node
