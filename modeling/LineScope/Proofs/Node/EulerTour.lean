import LineScope.Proofs.Node.Children
import Mathlib.Data.List.Nodup

/-!
# The Euler tour of a tree

A walk stops at each occurrence of a node twice, on the way down to it and on the way up from it.  The
stops of a tree come to every occurrence once in either direction, those at one occurrence enclose
those below it, and the stops on the way down and on the way up are the two orders of the nodes.
-/

namespace LineScope.Node

/-! ### Stops -/

inductive Heading where
  | down
  | up
deriving DecidableEq, Repr

/-- A stop of a walk at an occurrence of a node: the numbers of the children on the way to it, and
whether the walk is on the way down to it or up from it. -/
structure Stop where
  heading : Heading
  path : List Nat
  node : Node
deriving Repr

/-- The stops at a node at the end of a path, and between them those at its children. -/
def stopsFrom (path : List Nat) (node : Node) : List Stop :=
  ⟨.down, path, node⟩ ::
    (node.children.zipIdx.attach.flatMap (fun child => stopsFrom (path ++ [child.1.2]) child.1.1) ++
      [⟨.up, path, node⟩])
termination_by node.depth
decreasing_by exact depth_lt_of_mem_children node _ (List.fst_mem_of_mem_zipIdx child.2)

/-- The stops of a walk over a tree. -/
def eulerTour (tree : Node) : List Stop := stopsFrom [] tree

/-- All nodes of a tree, each after its children. -/
def postorder (node : Node) : List Node :=
  node.children.attach.flatMap (fun child => postorder child.1) ++ [node]
termination_by node.depth
decreasing_by exact depth_lt_of_mem_children node _ child.2

theorem stopsFrom_eq (path : List Nat) (node : Node) :
    stopsFrom path node = ⟨.down, path, node⟩ ::
      (node.children.zipIdx.flatMap (fun child => stopsFrom (path ++ [child.2]) child.1) ++
        [⟨.up, path, node⟩]) := by
  rw [stopsFrom, List.flatMap_subtype (g := fun child => stopsFrom (path ++ [child.2]) child.1)
    (fun _ _ => rfl), List.unattach_attach]

theorem postorder_eq (node : Node) :
    node.postorder = node.children.flatMap postorder ++ [node] := by
  rw [postorder, List.flatMap_subtype (g := postorder) (fun _ _ => rfl), List.unattach_attach]

theorem depth_lt_of_mem_zipIdx (node : Node) (child : Node × Nat)
    (h : child ∈ node.children.zipIdx) : child.1.depth < node.depth :=
  depth_lt_of_mem_children node child.1 (List.fst_mem_of_mem_zipIdx h)

/-! ### Occurrences and their stops -/

theorem mem_stopsFrom (path : List Nat) (node : Node) (stop : Stop) :
    stop ∈ stopsFrom path node ↔
      ∃ below, stop.path = path ++ below ∧ node.at? below = some stop.node := by
  induction node using induction_depth generalizing path with
  | step node ih =>
    rw [stopsFrom_eq]
    constructor
    · intro h
      simp only [List.mem_cons, List.mem_append, List.mem_flatMap, List.not_mem_nil, or_false] at h
      rcases h with rfl | ⟨child, hc, h⟩ | rfl
      · exact ⟨[], (List.append_nil _).symm, rfl⟩
      · obtain ⟨below, hpath, hat⟩ :=
          (ih child.1 (depth_lt_of_mem_zipIdx node child hc) _).mp h
        refine ⟨child.2 :: below, by rw [hpath, List.append_assoc]; rfl, ?_⟩
        rw [at?, List.mem_zipIdx_iff_getElem?.mp hc]
        exact hat
      · exact ⟨[], (List.append_nil _).symm, rfl⟩
    · rintro ⟨below, hpath, hat⟩
      cases below with
      | nil =>
        obtain ⟨heading, _, _⟩ := stop
        cases hat
        rw [List.append_nil] at hpath
        cases hpath
        cases heading <;> simp
      | cons j below =>
        obtain ⟨child, hchild, hbelow⟩ := Option.bind_eq_some_iff.mp hat
        have hc : (child, j) ∈ node.children.zipIdx := List.mem_zipIdx_iff_getElem?.mpr hchild
        have hstop : stop ∈ stopsFrom (path ++ [j]) child :=
          (ih child (depth_lt_of_mem_zipIdx node _ hc) _).mpr
            ⟨below, by rw [hpath, List.append_assoc]; rfl, hbelow⟩
        exact List.mem_cons_of_mem _
          (List.mem_append_left _ (List.mem_flatMap.mpr ⟨(child, j), hc, hstop⟩))

theorem nodup_stopsFrom (path : List Nat) (node : Node) : (stopsFrom path node).Nodup := by
  induction node using induction_depth generalizing path with
  | step node ih =>
    have hbelow : ∀ heading, (⟨heading, path, node⟩ : Stop) ∉
        node.children.zipIdx.flatMap fun child => stopsFrom (path ++ [child.2]) child.1 := by
      intro heading h
      obtain ⟨child, _, h⟩ := List.mem_flatMap.mp h
      obtain ⟨below, hpath, _⟩ := (mem_stopsFrom _ _ _).mp h
      have hlength := congrArg List.length hpath
      simp only [List.length_append, List.length_singleton] at hlength
      omega
    have hchildren : (node.children.zipIdx.flatMap fun child =>
        stopsFrom (path ++ [child.2]) child.1).Nodup := by
      refine List.nodup_flatMap.mpr
        ⟨fun child hc => ih child.1 (depth_lt_of_mem_zipIdx node child hc) _, ?_⟩
      have hnumbers : node.children.zipIdx.Pairwise fun a b => a.2 < b.2 := by
        rw [← List.pairwise_map (f := Prod.snd), List.zipIdx_map_snd]
        exact List.pairwise_lt_range'
      refine hnumbers.imp fun {a b} hlt stop ha hb => ?_
      obtain ⟨first, hfirst, _⟩ := (mem_stopsFrom _ _ _).mp ha
      obtain ⟨second, hsecond, _⟩ := (mem_stopsFrom _ _ _).mp hb
      rw [hfirst, List.append_assoc, List.append_assoc] at hsecond
      have hnumber := (List.cons.inj (List.append_cancel_left hsecond)).1
      omega
    rw [stopsFrom_eq]
    refine List.nodup_cons.mpr ⟨?_, ?_⟩
    · simp [hbelow]
    · refine List.nodup_append.mpr ⟨hchildren, List.nodup_singleton _, ?_⟩
      rintro stop hs _ hup rfl
      rw [List.mem_singleton.mp hup] at hs
      exact hbelow _ hs

/-- Stops that lie inside one another like brackets: between the way down to an occurrence and the way
up from it, the walk goes down and up again. -/
inductive Nested : List Stop → Prop
  | nil : Nested []
  | around (path : List Nat) (node : Node) {inside behind : List Stop} (hinside : Nested inside)
      (hbehind : Nested behind) :
      Nested (⟨.down, path, node⟩ :: (inside ++ ⟨.up, path, node⟩ :: behind))

theorem Nested.append {first second : List Stop} (hfirst : Nested first) (hsecond : Nested second) :
    Nested (first ++ second) := by
  induction hfirst with
  | nil => exact hsecond
  | around path node hinside _ _ ih =>
    rw [List.cons_append, List.append_assoc, List.cons_append]
    exact .around path node hinside ih

theorem nested_flatMap {γ : Type} (items : List γ) (stops : γ → List Stop)
    (h : ∀ item ∈ items, Nested (stops item)) : Nested (items.flatMap stops) := by
  induction items with
  | nil => exact .nil
  | cons item items ih =>
    rw [List.flatMap_cons]
    exact (h item List.mem_cons_self).append (ih fun other ho => h other (List.mem_cons_of_mem _ ho))

theorem nested_stopsFrom (path : List Nat) (node : Node) : Nested (stopsFrom path node) := by
  induction node using induction_depth generalizing path with
  | step node ih =>
    rw [stopsFrom_eq]
    exact .around path node
      (nested_flatMap _ _ fun child hc => ih child.1 (depth_lt_of_mem_zipIdx node child hc) _) .nil

/-- Stops that come to every occurrence in a tree once on the way down and once on the way up, and
lie inside one another. -/
structure ToursOnce (stops : List Stop) (tree : Node) : Prop where
  mem_iff : ∀ stop, stop ∈ stops ↔ tree.at? stop.path = some stop.node
  nodup : stops.Nodup
  nested : Nested stops

theorem toursOnce_eulerTour (tree : Node) : ToursOnce tree.eulerTour tree where
  mem_iff stop := by
    rw [eulerTour, mem_stopsFrom]
    simp
  nodup := nodup_stopsFrom [] tree
  nested := nested_stopsFrom [] tree

/-! ### One half of the stops -/

namespace Stop

/-- The node at a stop on the way down. -/
def down? (stop : Stop) : Option Node :=
  match stop.heading with
  | .down => some stop.node
  | .up => none

/-- The node at a stop on the way up. -/
def up? (stop : Stop) : Option Node :=
  match stop.heading with
  | .down => none
  | .up => some stop.node

end Stop

theorem flatMap_zipIdx {γ : Type} (nodes : List Node) (f : Node → List γ) :
    (nodes.zipIdx.flatMap fun child => f child.1) = nodes.flatMap f := by
  conv_rhs => rw [← List.zipIdx_map_fst 0 nodes, List.flatMap_map]

theorem filterMap_stops {γ : Type} (f : Stop → Option γ) (node : Node) (path : List Nat)
    (order : Node → List γ) (h : ∀ child ∈ node.children.zipIdx,
      (stopsFrom (path ++ [child.2]) child.1).filterMap f = order child.1) :
    (stopsFrom path node).filterMap f =
      [⟨.down, path, node⟩].filterMap f ++ node.children.flatMap order ++
        [⟨.up, path, node⟩].filterMap f := by
  rw [stopsFrom_eq, ← List.singleton_append, List.filterMap_append, List.filterMap_append,
    List.filterMap_flatMap, List.flatMap_congr h, flatMap_zipIdx, List.append_assoc]

theorem filterMap_down (path : List Nat) (node : Node) :
    (stopsFrom path node).filterMap Stop.down? = node.occurrences := by
  induction node using induction_depth generalizing path with
  | step node ih =>
    rw [filterMap_stops Stop.down? node path occurrences
      fun child hc => ih child.1 (depth_lt_of_mem_zipIdx node child hc) _, occurrences_eq]
    simp [Stop.down?]

theorem filterMap_up (path : List Nat) (node : Node) :
    (stopsFrom path node).filterMap Stop.up? = node.postorder := by
  induction node using induction_depth generalizing path with
  | step node ih =>
    rw [filterMap_stops Stop.up? node path postorder
      fun child hc => ih child.1 (depth_lt_of_mem_zipIdx node child hc) _, postorder_eq]
    simp [Stop.up?]

end LineScope.Node
