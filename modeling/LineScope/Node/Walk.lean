import LineScope.Node.Basic

/-!
# Walks over quoted code

A walk calls one function on the way down to a node and another on the way up, and threads a state
through all calls.  The function on the way down may return another node: its children are then the
ones that are visited.  Since such a node may be deeper than the one it replaces, a walk has a
limit on the depth it descends to.
-/

namespace LineScope.Node

/-- What a walk does at a node: it may fail, change the node and change the state. -/
abbrev Visit (ε σ : Type) := Node → σ → Except ε (Node × σ)

/-- The visit that changes nothing. -/
def keep {ε σ : Type} : Visit ε σ := fun node state => .ok (node, state)

/-- Visits several nodes from left to right. -/
def visitAll {ε σ : Type} (visit : Visit ε σ) :
    List Node → σ → Except ε (List Node × σ)
  | [], state => .ok ([], state)
  | node :: nodes, state => do
    let (node, state) ← visit node state
    let (nodes, state) ← visitAll visit nodes state
    return (node :: nodes, state)

/-- Visits the arguments of a call, if it has any. -/
def visitArgs {ε σ : Type} (visit : Visit ε σ) :
    Option (List Node) → σ → Except ε (Option (List Node) × σ)
  | none, state => .ok (none, state)
  | some args, state => do
    let (args, state) ← visitAll visit args state
    return (some args, state)

/-- Visits the children of a node: a computed head before the arguments, and the rest from left to
right. -/
def visitChildren {ε σ : Type} (visit : Visit ε σ) : Visit ε σ
  | .call name args line, state => do
    let (args, state) ← visitArgs visit args state
    return (.call name args line, state)
  | .apply head args line, state => do
    let (head, state) ← visit head state
    let (args, state) ← visitArgs visit args state
    return (.apply head args line, state)
  | .pair left right, state => do
    let (left, state) ← visit left state
    let (right, state) ← visit right state
    return (.pair left right, state)
  | .list items, state => do
    let (items, state) ← visitAll visit items state
    return (.list items, state)
  | node, state => .ok (node, state)

/-- Walks a node down to a depth: `pre` on the way down, `post` on the way up. -/
def walk {ε σ : Type} (pre post : Visit ε σ) (tooDeep : ε) : Nat → Visit ε σ
  | 0, _, _ => .error tooDeep
  | limit + 1, node, state => do
    let (node, state) ← pre node state
    let (node, state) ← visitChildren (walk pre post tooDeep limit) node state
    post node state

/-- A walk that looks at each node before its children. -/
def walkDown {ε σ : Type} (pre : Visit ε σ) (tooDeep : ε) (limit : Nat) : Visit ε σ :=
  walk pre keep tooDeep limit

/-- A walk that looks at each node after its children. -/
def walkUp {ε σ : Type} (post : Visit ε σ) (tooDeep : ε) (limit : Nat) : Visit ε σ :=
  walk keep post tooDeep limit

/-! ### Occurrences in order -/

/-- The nodes of a tree down to a depth, each before its children. -/
def preorder : Nat → Node → List Node
  | 0, _ => []
  | limit + 1, node => node :: node.children.flatMap (preorder limit)

/-- All nodes of a tree, each before its children. -/
def occurrences (node : Node) : List Node := preorder node.depth node

end LineScope.Node
