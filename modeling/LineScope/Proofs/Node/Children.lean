import LineScope.Node.Walk
import Mathlib.Data.List.Basic

/-!
# Nodes and their children

A node is its outer form with a list of children in it.  Visiting the children of a node is visiting
that list and putting the results back, so a walk over a tree is an induction over lists of children.
-/

namespace LineScope.Node

/-! ### Children and the form around them -/

/-- A node with other children in the places of its own. -/
def withChildren : Node → List Node → Node
  | .call name args line, nodes => .call name (args.map fun _ => nodes) line
  | .apply head args line, nodes => .apply (nodes.headD head) (args.map fun _ => nodes.tail) line
  | .pair left right, nodes => .pair (nodes.headD left) (nodes.tail.headD right)
  | .list _, nodes => .list nodes
  | .literal value, _ => .literal value
  | .ident name line context, _ => .ident name line context

theorem children_withChildren (node : Node) (nodes : List Node)
    (h : nodes.length = node.children.length) : (node.withChildren nodes).children = nodes := by
  cases node with
  | call name args line =>
    cases args with
    | none =>
      have hnil : nodes = [] := List.eq_nil_of_length_eq_zero h
      subst hnil
      rfl
    | some args => rfl
  | apply head args line =>
    cases nodes with
    | nil => simp [children] at h
    | cons first rest =>
      cases args with
      | none =>
        have hnil : rest = [] := by simpa [children] using h
        subst hnil
        rfl
      | some args => rfl
  | pair left right =>
    obtain ⟨first, second, rfl⟩ := List.length_eq_two.mp h
    rfl
  | list items => rfl
  | literal value => exact (List.eq_nil_of_length_eq_zero h).symm
  | ident name line context => exact (List.eq_nil_of_length_eq_zero h).symm

theorem children_withChildren_map (node : Node) (f : Node → Node) :
    (node.withChildren (node.children.map f)).children = node.children.map f :=
  children_withChildren node _ (List.length_map f)

@[simp]
theorem withChildren_children (node : Node) : node.withChildren node.children = node := by
  cases node with
  | call name args line => cases args <;> rfl
  | apply head args line => cases args <;> rfl
  | _ => rfl

/-- The node at the end of a path of child numbers. -/
def at? : List Nat → Node → Option Node
  | [], node => some node
  | j :: path, node => node.children[j]?.bind (at? path)

/-- Induction over trees: what passes from all shallower nodes to a node holds of every node. -/
theorem induction_depth {P : Node → Prop}
    (step : ∀ node : Node, (∀ other : Node, other.depth < node.depth → P other) → P node)
    (node : Node) : P node := by
  have key : ∀ (n : Nat) (node : Node), node.depth ≤ n → P node := by
    intro n
    induction n with
    | zero =>
      intro node h
      have hd := depth_eq node
      omega
    | succ n ih =>
      intro node h
      exact step node fun other ho => ih other (by omega)
  exact key node.depth node (Nat.le_refl _)

/-! ### Occurrences -/

theorem preorder_eq_of_depth_le (limit : Nat) (node : Node) (h : node.depth ≤ limit) :
    preorder limit node = node.occurrences := by
  have key : ∀ (a b : Nat) (node : Node), node.depth ≤ a → node.depth ≤ b →
      preorder a node = preorder b node := by
    intro a
    induction a with
    | zero =>
      intro b node ha _
      have hd := depth_eq node
      omega
    | succ a ih =>
      intro b node ha hb
      cases b with
      | zero =>
        have hd := depth_eq node
        omega
      | succ b =>
        simp only [preorder]
        congr 1
        refine List.flatMap_congr fun child hc => ?_
        have hlt := depth_lt_of_mem_children node child hc
        exact ih b child (by omega) (by omega)
  exact key limit node.depth node h (Nat.le_refl _)

/-- The occurrences in a tree are the tree itself and the occurrences in its children. -/
theorem occurrences_eq (node : Node) :
    node.occurrences = node :: node.children.flatMap occurrences := by
  have hd := depth_eq node
  rw [occurrences, hd, preorder]
  congr 1
  refine List.flatMap_congr fun child hc => preorder_eq_of_depth_le _ child ?_
  have hlt := depth_lt_of_mem_children node child hc
  omega

theorem self_mem_occurrences (node : Node) : node ∈ node.occurrences := by
  rw [occurrences_eq]
  exact List.mem_cons_self

theorem mem_occurrences_of_mem_children (node child other : Node) (hc : child ∈ node.children)
    (ho : other ∈ child.occurrences) : other ∈ node.occurrences := by
  rw [occurrences_eq]
  exact List.mem_cons_of_mem _ (List.mem_flatMap.mpr ⟨child, hc, ho⟩)

theorem child_mem_occurrences (node child : Node) (hc : child ∈ node.children) :
    child ∈ node.occurrences :=
  mem_occurrences_of_mem_children node child child hc (self_mem_occurrences child)

/-! ### Visits of the children -/

section Visits

variable {ε σ : Type}

theorem visitArgs_eq (visit : Visit ε σ) (args : Option (List Node)) (state : σ) :
    visitArgs visit args state =
      (visitAll visit (args.getD []) state).map fun r => (args.map fun _ => r.1, r.2) := by
  cases args with
  | none => rfl
  | some args =>
    simp only [visitArgs, Option.getD_some, Option.map_some]
    cases visitAll visit args state <;> rfl

/-- Visiting the children of a node is visiting the list of them and putting the results back. -/
theorem visitChildren_eq (visit : Visit ε σ) (node : Node) (state : σ) :
    visitChildren visit node state =
      (visitAll visit node.children state).map fun r => (node.withChildren r.1, r.2) := by
  cases node with
  | call name args line =>
    simp only [visitChildren, visitArgs_eq, children]
    cases visitAll visit (args.getD []) state <;> rfl
  | apply head args line =>
    simp only [visitChildren, visitArgs_eq, children, visitAll]
    cases visit head state with
    | error e => rfl
    | ok first =>
      obtain ⟨first, state⟩ := first
      show (do let r ← Except.map _ (visitAll visit (args.getD []) state); _) = _
      cases hv : visitAll visit (args.getD []) state with
      | error e => simp [hv, bind, Except.bind, Except.map]
      | ok rest => simp [hv, bind, Except.bind, Except.map, withChildren, pure, Except.pure]
  | pair left right =>
    simp only [visitChildren, children, visitAll]
    cases visit left state with
    | error e => rfl
    | ok first =>
      obtain ⟨first, state⟩ := first
      cases hv : visit right state with
      | error e => simp [hv, bind, Except.bind, Except.map]
      | ok second => simp [hv, bind, Except.bind, Except.map, withChildren, pure, Except.pure]
  | list items =>
    simp only [visitChildren, children]
    cases visitAll visit items state <;> rfl
  | literal value => rfl
  | ident name line context => rfl

/-- Where each visit makes steps one after the other, so do the visits of several nodes. -/
theorem visitAll_eq_foldlM {γ δ : Type} (visit : Visit ε σ) (act : σ → δ → Except ε σ)
    (entry result : γ → Node) (steps : γ → List δ) (items : List γ) (state : σ)
    (h : ∀ item ∈ items, ∀ state,
      visit (entry item) state =
        ((steps item).foldlM act state).map fun next => (result item, next)) :
    visitAll visit (items.map entry) state =
      ((items.flatMap steps).foldlM act state).map fun next => (items.map result, next) := by
  induction items generalizing state with
  | nil => rfl
  | cons item items ih =>
    rw [List.map_cons, visitAll, h item List.mem_cons_self, List.flatMap_cons, List.foldlM_append]
    cases (steps item).foldlM act state with
    | error e => rfl
    | ok next =>
      have hrest := ih next fun other ho => h other (List.mem_cons_of_mem _ ho)
      show (visitAll visit (items.map entry) next >>= fun r => _) = _
      rw [hrest]
      show _ = ((items.flatMap steps).foldlM act next).map _
      cases (items.flatMap steps).foldlM act next <;> rfl

end Visits

end LineScope.Node
