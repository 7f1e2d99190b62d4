import LineScope.Number.Binary64

/-!
# Quoted code

Code as data: calls with a name or a computed head, pairs, lists, literals and identifiers.  Calls
and identifiers carry the line they were written on.
-/

namespace LineScope

open LineScope.Number

/-- A literal value. -/
inductive Literal where
  | atom (name : String)
  | string (value : String)
  | charlist (value : String)
  | integer (value : Int)
  | float (value : Binary64)
  | boolean (value : Bool)
  | nil
deriving DecidableEq, Repr

/-- A piece of quoted code. -/
inductive Node where
  /-- A call of a name.  Operators, definitions and directives are such calls; without arguments
  it is a bare reference. -/
  | call (name : String) (args : Option (List Node)) (line : Option Int)
  /-- A call whose head is itself code, as in `a.b(c)` or `f.(x)`. -/
  | apply (head : Node) (args : Option (List Node)) (line : Option Int)
  | pair (left right : Node)
  | list (items : List Node)
  | literal (value : Literal)
  /-- A name that stands alone; `context` is the module that put it there, if one did. -/
  | ident (name : String) (line : Option Int) (context : Option String)
deriving Repr

namespace Node

instance : Inhabited Node := ⟨.literal .nil⟩

/-- The line of a node, which only calls and identifiers have. -/
def line : Node → Option Int
  | .call _ _ line => line
  | .apply _ _ line => line
  | .ident _ line _ => line
  | _ => none

/-- The arguments of a call, none for any other node. -/
def args : Node → List Node
  | .call _ args _ => args.getD []
  | .apply _ args _ => args.getD []
  | _ => []

/-- The nodes directly below a node, in the order in which they are visited. -/
def children : Node → List Node
  | .call _ args _ => args.getD []
  | .apply head args _ => head :: args.getD []
  | .pair left right => [left, right]
  | .list items => items
  | .literal _ => []
  | .ident _ _ _ => []

mutual

/-- The number of nodes on the longest way down from a node. -/
def depth : Node → Nat
  | .call _ args _ => depthOption args + 1
  | .apply head args _ => max head.depth (depthOption args) + 1
  | .pair left right => max left.depth right.depth + 1
  | .list items => depthList items + 1
  | .literal _ => 1
  | .ident _ _ _ => 1

/-- The greatest depth in an argument list, zero if there is none. -/
def depthOption : Option (List Node) → Nat
  | none => 0
  | some nodes => depthList nodes

/-- The greatest depth in a list of nodes. -/
def depthList : List Node → Nat
  | [] => 0
  | node :: nodes => max node.depth (depthList nodes)

end

theorem depthList_le_iff (nodes : List Node) (n : Nat) :
    depthList nodes ≤ n ↔ ∀ node ∈ nodes, node.depth ≤ n := by
  induction nodes with
  | nil => simp [depthList]
  | cons node nodes ih =>
    rw [depthList, Nat.max_le, ih]
    simp

theorem depthOption_eq (args : Option (List Node)) : depthOption args = depthList (args.getD []) := by
  cases args <;> simp [depthOption, depthList]

/-- A node is one level deeper than its deepest child. -/
theorem depth_eq (node : Node) : node.depth = depthList node.children + 1 := by
  cases node <;> simp [depth, children, depthList, depthOption_eq]

theorem depth_lt_of_mem_children (node child : Node) (h : child ∈ node.children) :
    child.depth < node.depth := by
  rw [depth_eq node]
  exact Nat.lt_succ_of_le ((depthList_le_iff _ _).mp (Nat.le_refl _) child h)

end Node

end LineScope
