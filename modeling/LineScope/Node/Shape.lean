import LineScope.Node.Printed

/-!
# Shapes of quoted code

Names for the shapes that the analysis looks for: module names, blocks, keyword lists.
-/

namespace LineScope

/-- The head of a module name. -/
def aliasesHead : String := "__aliases__"

/-- The head of a sequence of statements. -/
def blockHead : String := "__block__"

/-- Module names are written with points between their segments. -/
def joinSegments (segments : List String) : String := String.intercalate "." segments

namespace Node

/-- An atom. -/
def atom (name : String) : Node := .literal (.atom name)

/-- A module name made of segments. -/
def aliases (segments : List String) : Node := .call aliasesHead (some (segments.map atom)) none

/-- A sequence of statements; a single statement stands for itself. -/
def block : List Node → Node
  | [statement] => statement
  | statements => .call blockHead (some statements) none

/-- The name of an atom. -/
def atomName? : Node → Option String
  | .literal (.atom name) => some name
  | _ => none

/-- The segments of a module name all of whose segments are atoms. -/
def segments? : Node → Option (List String)
  | .call name (some args) _ => if name = aliasesHead then args.mapM atomName? else none
  | _ => none

/-- Whether a node is a module name made of atoms. -/
def isAliases (node : Node) : Bool := node.segments?.isSome

/-- The dotted text of a module name made of atoms. -/
def moduleName? (node : Node) : Option String := node.segments?.map joinSegments

/-- The message about a node that was expected to be a module name. -/
def notAliasesMessage (node : Node) : String := "not an alias reference: " ++ node.text

/-- The value of a keyword entry with the given key. -/
def entryValue? (key : String) : Node → Option Node
  | .pair left right => if left.atomName? = some key then some right else none
  | _ => none

/-- The value of the first entry with the given key in a keyword list. -/
def keyword? (key : String) : Node → Option Node
  | .list items => items.findSome? (entryValue? key)
  | _ => none

theorem segments?_aliases (segments : List String) : (aliases segments).segments? = some segments := by
  simp only [aliases, segments?, if_true]
  induction segments with
  | nil => rfl
  | cons s ss ih =>
    rw [List.map_cons, List.mapM_cons, ih]
    rfl

end Node

end LineScope
