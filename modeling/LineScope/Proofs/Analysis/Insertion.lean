import LineScope.Proofs.Analysis.Tour
import Mathlib.Data.List.Forall2

/-!
# Insertion into blocks

A block may get another argument anywhere in a tree.  The nodes around the block read names, keyword
entries and function heads off their children, and none of these change.  So the tour over the tree
stays as it was, except that the tour over the new argument is put in at one place.
-/

namespace LineScope.Node

/-! ### Trees with another argument -/

/-- A call with another argument in front of its `i`-th one. -/
def insertArg (new : Node) (i : Nat) : Node → Node
  | .call name args line => .call name (some ((args.getD []).insertIdx i new)) line
  | node => node

/-- A tree in which the call at the end of a path gets another argument. -/
def insertAt (new : Node) (i : Nat) : List Nat → Node → Node
  | [], node => insertArg new i node
  | j :: path, node => node.withChildren (node.children.modify j (insertAt new i path))

theorem children_split (node child : Node) (j : Nat) (h : node.children[j]? = some child) :
    ∃ before after, node.children = before ++ child :: after ∧ before.length = j := by
  obtain ⟨hj, hchild⟩ := List.getElem?_eq_some_iff.mp h
  refine ⟨node.children.take j, node.children.drop (j + 1), ?_, ?_⟩
  · rw [← hchild, ← List.drop_eq_getElem_cons hj, List.take_append_drop]
  · rw [List.length_take]
    omega

theorem modify_split (f : Node → Node) (before after : List Node) (child : Node) :
    (before ++ child :: after).modify before.length f = before ++ f child :: after := by
  induction before with
  | nil => rfl
  | cons first before ih => simp [ih]

theorem insertIdx_split (new : Node) (i : Nat) (nodes : List Node) (hi : i ≤ nodes.length) :
    nodes.insertIdx i new = nodes.take i ++ new :: nodes.drop i := by
  induction nodes generalizing i with
  | nil =>
    obtain rfl : i = 0 := Nat.le_zero.mp hi
    rfl
  | cons first nodes ih =>
    cases i with
    | zero => rfl
    | succ i => simp [ih i (by simpa using hi)]

theorem insertAt_cons (new node child : Node) (i : Nat) (path : List Nat)
    (before after : List Node) (h : node.children = before ++ child :: after) :
    insertAt new i (before.length :: path) node =
      node.withChildren (before ++ insertAt new i path child :: after) := by
  rw [insertAt, h, modify_split]

/-! ### Function definitions with their guards -/

/-- Whether a node is a guarded head. -/
def isGuarded : Node → Bool
  | .call "when" (some (_ :: _)) _ => true
  | _ => false

/-- Whether a node is a function definition whose first argument is its head: one with a body, or a
macro without one. -/
def takesHead : Node → Bool
  | .call name args _ =>
    isDefinitionHead name && ((args.getD []).length == 2 ||
      ((args.getD []).length == 1 && compileTimeHeads.contains name))
  | _ => false

/-- Whether the walk leaves out a guard of a node. -/
def dropsGuard (node : Node) : Bool := node.takesHead && node.children.head?.any isGuarded

/-- Whether a path leads into a guard that the walk leaves out. -/
def InDroppedGuard (tree : Node) (path : List Nat) : Prop :=
  ∃ outer definition k rest, path = outer ++ 0 :: (k + 1) :: rest ∧
    tree.at? outer = some definition ∧ definition.dropsGuard = true

/-- Whether a path leads to the head of a function definition, without its guard. -/
def IsFunctionHead (tree : Node) (path : List Nat) : Prop :=
  ∃ outer definition, tree.at? outer = some definition ∧ definition.takesHead = true ∧
    path = outer ++ (if definition.dropsGuard then [0, 0] else [0])

theorem isGuarded_inv (node : Node) (h : node.isGuarded = true) :
    ∃ head guards line, node = .call "when" (some (head :: guards)) line := by
  unfold isGuarded at h
  split at h
  · exact ⟨_, _, _, rfl⟩
  · cases h

theorem dropGuard_of_not_guarded (node : Node) (h : node.isGuarded = false) :
    node.dropGuard = node := by
  unfold dropGuard
  split
  · cases h
  · rfl

theorem InDroppedGuard.child (node child : Node) (j : Nat) (path : List Nat)
    (hchild : node.children[j]? = some child) (h : child.InDroppedGuard path) :
    node.InDroppedGuard (j :: path) := by
  obtain ⟨outer, definition, k, rest, rfl, hat, hdrops⟩ := h
  exact ⟨j :: outer, definition, k, rest, rfl, by simp [at?, hchild, hat], hdrops⟩

theorem IsFunctionHead.child (node child : Node) (j : Nat) (path : List Nat)
    (hchild : node.children[j]? = some child) (h : child.IsFunctionHead path) :
    node.IsFunctionHead (j :: path) := by
  obtain ⟨outer, definition, hat, htakes, rfl⟩ := h
  exact ⟨j :: outer, definition, by simp [at?, hchild, hat], htakes, rfl⟩

/-! ### What a node reads off its children -/

/-- Two nodes that the node around them cannot tell apart, unless they are heads of functions. -/
structure Alike (first second : Node) : Prop where
  atom : second.atomName? = first.atomName?
  segments : second.segments? = first.segments?
  entry : (second.entryValue? "as").map moduleName? = (first.entryValue? "as").map moduleName?
  keyword : (second.keyword? "as").map moduleName? = (first.keyword? "as").map moduleName?
  guarded : second.isGuarded = first.isGuarded

theorem Alike.refl (node : Node) : Alike node node := ⟨rfl, rfl, rfl, rfl, rfl⟩

theorem Alike.moduleName? {first second : Node} (h : Alike first second) :
    second.moduleName? = first.moduleName? := by
  rw [Node.moduleName?, Node.moduleName?, h.segments]

theorem forall_alike_split (before after : List Node) (first second : Node)
    (h : Alike first second) :
    List.Forall₂ Alike (before ++ first :: after) (before ++ second :: after) := by
  refine List.rel_append (List.forall₂_same.mpr fun node _ => Alike.refl node) ?_
  exact .cons h (List.forall₂_same.mpr fun node _ => Alike.refl node)

theorem mapM_atomName?_congr (first second : List Node) (h : List.Forall₂ Alike first second) :
    second.mapM atomName? = first.mapM atomName? := by
  induction h with
  | nil => rfl
  | cons hhead _ ih => rw [List.mapM_cons, List.mapM_cons, hhead.atom, ih]

theorem findSome?_entryValue?_congr (first second : List Node)
    (h : List.Forall₂ Alike first second) :
    (second.findSome? (entryValue? "as")).map moduleName? =
      (first.findSome? (entryValue? "as")).map moduleName? := by
  induction h with
  | nil => rfl
  | @cons a b _ _ hhead _ ih =>
    have hentry := hhead.entry
    rw [List.findSome?_cons, List.findSome?_cons]
    -- both entries are there or none is
    cases ha : a.entryValue? "as" with
    | none =>
      cases hb : b.entryValue? "as" with
      | none => exact ih
      | some value => simp [ha, hb] at hentry
    | some value =>
      cases hb : b.entryValue? "as" with
      | none => simp [ha, hb] at hentry
      | some other => simpa [ha, hb] using hentry

theorem isGuarded_call (name : String) (args : Option (List Node)) (line : Option Int) :
    (call name args line).isGuarded = (name == "when" && !(args.getD []).isEmpty) := by
  by_cases hname : name = "when"
  · subst hname
    rcases args with _ | _ | ⟨head, guards⟩ <;> rfl
  · have hne : (name == "when") = false := by simpa using hname
    rw [hne, Bool.false_and]
    unfold isGuarded
    split
    · rename_i he
      cases he
      exact absurd rfl hname
    · rfl

theorem alike_withChildren (node : Node) (nodes : List Node)
    (h : List.Forall₂ Alike node.children nodes) : Alike node (node.withChildren nodes) := by
  have hlength := h.length_eq
  cases node with
  | call name args line =>
    cases args with
    | none => exact .refl _
    | some args =>
      refine ⟨rfl, ?_, rfl, rfl, ?_⟩
      · show (call name (some nodes) line).segments? = _
        simp only [segments?, mapM_atomName?_congr args nodes h]
      · show (call name (some nodes) line).isGuarded = _
        rw [isGuarded_call, isGuarded_call]
        cases h <;> rfl
  | apply head args line => exact ⟨rfl, rfl, rfl, rfl, rfl⟩
  | pair left right =>
    obtain ⟨first, second, rfl⟩ := List.length_eq_two.mp hlength.symm
    obtain ⟨hfirst, hrest⟩ := List.forall₂_cons.mp h
    obtain ⟨hsecond, -⟩ := List.forall₂_cons.mp hrest
    refine ⟨rfl, rfl, ?_, rfl, rfl⟩
    show ((pair first second).entryValue? "as").map Node.moduleName? = _
    simp only [entryValue?, hfirst.atom]
    split
    · exact congrArg some hsecond.moduleName?
    · rfl
  | list items => exact ⟨rfl, rfl, rfl, findSome?_entryValue?_congr items nodes h, rfl⟩
  | literal value => exact .refl _
  | ident name line context => exact .refl _

theorem alike_insertArg (new : Node) (i : Nat) (args : Option (List Node)) (line : Option Int) :
    Alike (call blockHead args line) (insertArg new i (call blockHead args line)) := by
  have hsegments : ∀ args, (call blockHead args line).segments? = none := by
    intro args
    cases args <;> rfl
  refine ⟨rfl, ?_, rfl, rfl, ?_⟩
  · rw [insertArg, hsegments, hsegments]
  · rw [insertArg, isGuarded_call, isGuarded_call]
    rfl

theorem alike_insertAt (new : Node) (i : Nat) (path : List Nat) (node : Node)
    (args : Option (List Node)) (line : Option Int)
    (hat : node.at? path = some (.call blockHead args line)) :
    Alike node (insertAt new i path node) := by
  induction path generalizing node with
  | nil =>
    obtain rfl := Option.some.inj hat
    exact alike_insertArg new i args line
  | cons j path ih =>
    obtain ⟨child, hchild, hbelow⟩ := Option.bind_eq_some_iff.mp hat
    obtain ⟨before, after, hchildren, rfl⟩ := children_split node child j hchild
    rw [insertAt_cons new node child i path before after hchildren]
    refine alike_withChildren node _ ?_
    rw [hchildren]
    exact forall_alike_split before after child _ (ih child hbelow)

/-- Below its own arguments, a node keeps the function that it names as a head. -/
theorem definedFunction?_insertAt (new node : Node) (i j : Nat) (path : List Nat) (line : Int) :
    (insertAt new i (j :: path) node).definedFunction? line = node.definedFunction? line := by
  cases node with
  | call name args line' => cases args <;> simp [insertAt, withChildren, definedFunction?, children]
  | _ => rfl

/-! ### Arrivals and departures -/

theorem moduleDefinition?_withChildren (node : Node) (nodes : List Node)
    (h : List.Forall₂ Alike node.children nodes) :
    (node.withChildren nodes).moduleDefinition? = node.moduleDefinition? := by
  cases node with
  | call name args line =>
    cases args with
    | none => rfl
    | some args =>
      show (call name (some nodes) line).moduleDefinition? = _
      by_cases hname : name = "defmodule"
      · subst hname
        cases h with
        | nil => rfl
        | cons hfirst hrest =>
          cases hrest with
          | nil => rfl
          | cons _ hrest =>
            cases hrest with
            | nil => cases line <;> simp only [moduleDefinition?, hfirst.segments]
            | cons _ _ => rfl
      · rw [moduleDefinition?_eq_none _ _ _ hname, moduleDefinition?_eq_none _ _ _ hname]
  | _ => rfl

/-- What a directive reads off its arguments. -/
def directiveNames? (name : String) (node : Node) :
    Option (Option (List String) × Option (Option String)) :=
  (node.directive? name).map fun found =>
    (found.1.segments?, (found.2.bind (keyword? "as")).map moduleName?)

theorem directiveNames?_withChildren (name : String) (node : Node) (nodes : List Node)
    (h : List.Forall₂ Alike node.children nodes) :
    (node.withChildren nodes).directiveNames? name = node.directiveNames? name := by
  cases node with
  | call head args line =>
    cases args with
    | none => rfl
    | some args =>
      show (call head (some nodes) line).directiveNames? name = _
      cases line with
      | none => cases h with
        | nil => rfl
        | cons _ hrest => cases hrest with
          | nil => rfl
          | cons _ hrest => cases hrest <;> rfl
      | some line =>
        by_cases hhead : head = name
        · subst hhead
          cases h with
          | nil => rfl
          | cons htarget hrest =>
            cases hrest with
            | nil => simp [directiveNames?, directive?, htarget.segments]
            | cons hoptions hrest =>
              cases hrest with
              | nil => simp [directiveNames?, directive?, htarget.segments, hoptions.keyword]
              | cons _ _ => rfl
        · rw [directiveNames?, directiveNames?, directive?_eq_none _ _ _ _ hhead,
            directive?_eq_none _ _ _ _ hhead]
  | _ => rfl

theorem importTarget?_eq (node : Node) :
    node.importTarget? =
      (node.directiveNames? "import").bind fun found => found.1.map joinSegments := by
  rw [importTarget?, directiveNames?]
  cases node.directive? "import" <;> rfl

/-- The names that an alias directive binds, from what it reads off its arguments. -/
def boundNames : Option (Option (List String) × Option (Option String)) →
    Except ScopeError (Option (String × String))
  | some (some segments, none) =>
    (lastSegment segments).map fun short => some (short, modulePathName segments)
  | some (some segments, some short) => .ok (short.map fun short => (short, modulePathName segments))
  | _ => .ok none

theorem aliasBinding?_eq (node : Node) :
    node.aliasBinding? = boundNames (node.directiveNames? "alias") := by
  rw [aliasBinding?, directiveNames?]
  cases node.directive? "alias" with
  | none => rfl
  | some found =>
    obtain ⟨target, options⟩ := found
    dsimp only [Option.map_some]
    cases target.segments? with
    | none => rfl
    | some segments => cases options.bind (keyword? "as") <;> rfl

end LineScope.Node

namespace LineScope.Metadata

theorem noteNode_congr (metadata : Metadata) (first second : Node)
    (himport : second.importTarget? = first.importTarget?)
    (halias : second.aliasBinding? = first.aliasBinding?)
    (hvariable : second.variableName? = first.variableName?) (hline : second.line = first.line) :
    metadata.noteNode second = metadata.noteNode first := by
  simp only [noteNode, himport, halias, hvariable, hline]

section WithChildren

variable (node : Node) (nodes : List Node) (h : List.Forall₂ Node.Alike node.children nodes)
  (hfunction : (node.withChildren nodes).functionDefinition? = node.functionDefinition?)

include h hfunction

theorem arrive_withChildren (metadata : Metadata) :
    metadata.arrive (node.withChildren nodes) = metadata.arrive node := by
  have hnote : metadata.noteNode (node.withChildren nodes) = metadata.noteNode node := by
    refine noteNode_congr metadata node _ ?_ ?_ ?_ ?_
    · rw [Node.importTarget?_eq, Node.importTarget?_eq, Node.directiveNames?_withChildren _ _ _ h]
    · rw [Node.aliasBinding?_eq, Node.aliasBinding?_eq, Node.directiveNames?_withChildren _ _ _ h]
    · cases node <;> rfl
    · cases node <;> rfl
  simp only [arrive, Node.moduleDefinition?_withChildren node nodes h, hfunction, hnote]

theorem depart_withChildren : depart (node.withChildren nodes) = depart node := by
  funext metadata
  simp only [depart, Node.functionName?, Node.moduleDefinition?_withChildren node nodes h, hfunction]

end WithChildren

end LineScope.Metadata

namespace LineScope.Node

/-! ### Normal forms around a child -/

theorem normalizeDefinition_of_not_takesHead (name : String) (args : List Node)
    (line : Option Int) (h : (call name (some args) line).takesHead = false) :
    (call name (some args) line).normalizeDefinition = .call name (some args) line := by
  rw [normalizeDefinition]
  split
  · rename_i hd
    have hargs : normalizedArgs name args = args := by
      rcases args with _ | ⟨head, _ | ⟨body, _ | ⟨third, rest⟩⟩⟩
      · rfl
      · have hc : compileTimeHeads.contains name = false := by simpa [takesHead, hd] using h
        rw [normalizedArgs, hc]
        rfl
      · simp [takesHead, hd] at h
      · rfl
    rw [Option.getD_some, hargs]
  · rfl

/-- The body of a definition, which a macro without one gets. -/
def bodyOf : List Node → Node
  | [_, body] => body
  | _ => .literal .nil

theorem normalizeDefinition_of_takesHead (name : String) (head : Node) (args : List Node)
    (line : Option Int) (h : (call name (some (head :: args)) line).takesHead = true) :
    (call name (some (head :: args)) line).normalizeDefinition =
      .call name (some [head.dropGuard, bodyOf (head :: args)]) line := by
  obtain ⟨hd, hargs⟩ := (Bool.and_eq_true _ _).mp h
  rw [normalizeDefinition, if_pos hd, Option.getD_some]
  rcases args with _ | ⟨body, _ | ⟨third, rest⟩⟩
  · have hc : compileTimeHeads.contains name = true := by simpa using hargs
    rw [normalizedArgs, if_pos hc]
    rfl
  · rfl
  · simp at hargs

theorem takesHead_call_some (name : String) (first second : List Node) (line : Option Int)
    (h : first.length = second.length) :
    (call name (some first) line).takesHead = (call name (some second) line).takesHead := by
  simp [takesHead, h]

theorem takesHead_normalizeDefinition (node : Node) :
    node.normalizeDefinition.takesHead = node.takesHead := by
  cases node with
  | call name args line =>
    rcases args with _ | args
    · by_cases hd : isDefinitionHead name = true <;>
        simp [normalizeDefinition, normalizedArgs, takesHead, hd]
    · cases htakes : (call name (some args) line).takesHead with
      | false => rw [normalizeDefinition_of_not_takesHead name args line htakes, htakes]
      | true =>
        cases args with
        | nil => simp [takesHead] at htakes
        | cons head args =>
          rw [normalizeDefinition_of_takesHead name head args line htakes]
          obtain ⟨hd, -⟩ := (Bool.and_eq_true _ _).mp htakes
          simp [takesHead, hd]
  | _ => rfl

/-- A child that is no guarded head stands at the same number below the normal form, and may be
replaced there. -/
theorem normal_child (node child : Node) (before after : List Node)
    (hchildren : node.children = before ++ child :: after)
    (hplain : before = [] → node.takesHead = true → child.isGuarded = false) :
    ∃ before' after', before'.length = before.length ∧
      node.normalizeDefinition.children = before' ++ child :: after' ∧
      ∀ other : Node, other.isGuarded = child.isGuarded →
        (node.withChildren (before ++ other :: after)).normalizeDefinition =
          node.normalizeDefinition.withChildren (before' ++ other :: after') := by
  cases node with
  | call name args line =>
    cases args with
    | none => simp [children] at hchildren
    | some args =>
      obtain rfl : args = before ++ child :: after := hchildren
      have hsame : ∀ other : Node, (call name (some (before ++ other :: after)) line).takesHead =
          (call name (some (before ++ child :: after)) line).takesHead :=
        fun other => takesHead_call_some name _ _ line (by simp)
      cases htakes : (call name (some (before ++ child :: after)) line).takesHead with
      | false =>
        refine ⟨before, after, rfl, ?_, fun other _ => ?_⟩
        · rw [normalizeDefinition_of_not_takesHead _ _ _ htakes]
          rfl
        · rw [normalizeDefinition_of_not_takesHead _ _ _ htakes]
          exact normalizeDefinition_of_not_takesHead _ _ _ ((hsame other).trans htakes)
      | true =>
        rcases before with _ | ⟨head, _ | ⟨second, before⟩⟩
        · refine ⟨[], [bodyOf (child :: after)], rfl, ?_, fun other hother => ?_⟩
          · rw [List.nil_append, normalizeDefinition_of_takesHead _ _ _ _ htakes,
              dropGuard_of_not_guarded child (hplain rfl htakes)]
            rfl
          · have hbody : bodyOf (other :: after) = bodyOf (child :: after) := by
              rcases after with _ | ⟨body, _ | _⟩ <;> rfl
            rw [List.nil_append, normalizeDefinition_of_takesHead _ _ _ _ htakes]
            refine (normalizeDefinition_of_takesHead _ _ _ _ ((hsame other).trans htakes)).trans ?_
            rw [hbody, dropGuard_of_not_guarded other (hother.trans (hplain rfl htakes))]
            rfl
        · obtain rfl : after = [] := by
            cases after with
            | nil => rfl
            | cons third rest => simp [takesHead] at htakes
          have hnormal := normalizeDefinition_of_takesHead name head [child] line htakes
          refine ⟨[head.dropGuard], [], rfl, congrArg children hnormal, fun other _ => ?_⟩
          refine (normalizeDefinition_of_takesHead _ _ _ _ ((hsame other).trans htakes)).trans ?_
          exact (congrArg (withChildren · [head.dropGuard, other]) hnormal).symm
        · simp [takesHead] at htakes
  | _ => exact ⟨before, after, rfl, hchildren, fun _ _ => rfl⟩

/-- Of a guarded head, the walk sees the head without its guards. -/
theorem normal_guarded (node head : Node) (guards after : List Node) (line : Option Int)
    (hchildren : node.children = .call "when" (some (head :: guards)) line :: after)
    (htakes : node.takesHead = true) :
    ∃ after', node.normalizeDefinition.children = head :: after' ∧
      ∀ other : Node,
        (node.withChildren (.call "when" (some (other :: guards)) line :: after)).normalizeDefinition =
          node.normalizeDefinition.withChildren (other :: after') := by
  cases node with
  | call name args outer =>
    cases args with
    | none => simp [children] at hchildren
    | some args =>
      obtain rfl : args = .call "when" (some (head :: guards)) line :: after := hchildren
      refine ⟨[bodyOf (head :: after)], ?_, fun other => ?_⟩
      · rw [normalizeDefinition_of_takesHead _ _ _ _ htakes]
        rcases after with _ | ⟨body, _ | _⟩ <;> rfl
      · refine (normalizeDefinition_of_takesHead _ _ _ _ ?_).trans ?_
        · exact (takesHead_call_some name _ _ outer rfl).trans htakes
        · rw [normalizeDefinition_of_takesHead _ _ _ _ htakes]
          rcases after with _ | ⟨body, _ | _⟩ <;> rfl
  | _ => cases htakes

theorem functionDefinition?_split (node child other : Node) (before after : List Node)
    (hchildren : node.children = before ++ child :: after)
    (hhead : before = [] → node.takesHead = true →
      ∀ line, other.definedFunction? line = child.definedFunction? line) :
    (node.withChildren (before ++ other :: after)).functionDefinition? =
      node.functionDefinition? := by
  cases node with
  | call name args line =>
    cases args with
    | none => simp [children] at hchildren
    | some args =>
      obtain rfl : args = before ++ child :: after := hchildren
      show (call name (some (before ++ other :: after)) line).functionDefinition? = _
      cases line with
      | none => simp [functionDefinition?]
      | some line =>
        rcases before with _ | ⟨first, _ | ⟨second, before⟩⟩
        · rcases after with _ | ⟨body, _ | ⟨third, after⟩⟩
          · rfl
          · simp only [List.nil_append, functionDefinition?]
            split
            · rename_i hd
              exact hhead rfl (by simp [takesHead, hd]) line
            · rfl
          · rfl
        · rcases after with _ | ⟨third, after⟩ <;> rfl
        · rcases before with _ | ⟨third, before⟩ <;> rfl
  | _ => rfl

/-! ### Tours with an insertion -/

theorem tour_split (node child : Node) (before after : List Node)
    (hchildren : node.normalizeDefinition.children = before ++ child :: after) :
    node.tour = (·.arrive node.normalizeDefinition) :: before.flatMap tour ++ (child.tour ++
      (after.flatMap tour ++ [Metadata.depart node.normalizeDefinition])) := by
  rw [tour_eq, hchildren]
  simp

theorem tour_replaced (node changed child other : Node) (before after : List Node)
    (hchildren : node.normalizeDefinition.children = before ++ child :: after)
    (hchanged : changed.normalizeDefinition =
      node.normalizeDefinition.withChildren (before ++ other :: after))
    (halike : Alike child other)
    (hhead : before = [] → node.takesHead = true →
      ∀ line, other.definedFunction? line = child.definedFunction? line) :
    changed.tour = (·.arrive node.normalizeDefinition) :: before.flatMap tour ++ (other.tour ++
      (after.flatMap tour ++ [Metadata.depart node.normalizeDefinition])) := by
  have hforall : List.Forall₂ Alike node.normalizeDefinition.children (before ++ other :: after) := by
    rw [hchildren]
    exact forall_alike_split before after child other halike
  have hfunction : (node.normalizeDefinition.withChildren
      (before ++ other :: after)).functionDefinition? = node.normalizeDefinition.functionDefinition? :=
    functionDefinition?_split _ child other before after hchildren
      (fun hb ht => hhead hb ((takesHead_normalizeDefinition node).symm.trans ht))
  have hbelow : changed.normalizeDefinition.children = before ++ other :: after := by
    rw [hchanged]
    refine children_withChildren _ _ ?_
    rw [hchildren, List.length_append, List.length_append]
    rfl
  have harrive : (fun metadata : Metadata => metadata.arrive changed.normalizeDefinition) =
      fun metadata => metadata.arrive node.normalizeDefinition := by
    funext metadata
    rw [hchanged]
    exact Metadata.arrive_withChildren _ _ hforall hfunction metadata
  have hdepart : Metadata.depart changed.normalizeDefinition =
      Metadata.depart node.normalizeDefinition := by
    rw [hchanged]
    exact Metadata.depart_withChildren _ _ hforall hfunction
  rw [tour_split changed other before after hbelow, harrive, hdepart]

/-- The steps of the walk over a node in front of its `i`-th child. -/
def stepsTo (i : Nat) (node : Node) : List Metadata.Step :=
  (·.arrive node.normalizeDefinition) :: (node.normalizeDefinition.children.take i).flatMap tour

/-- The steps of the walk over a tree in front of the `i`-th argument of the node at the end of a path.
Below a definition with a guard, the walk is at once at the head without the guard. -/
def tourBefore (i : Nat) : List Nat → Node → List Metadata.Step
  | [], node => node.stepsTo i
  | [j], node => node.stepsTo j ++ node.normalizeDefinition.children[j]?.elim [] (tourBefore i [])
  | j :: k :: path, node =>
    node.stepsTo j ++ node.normalizeDefinition.children[j]?.elim []
      (if j = 0 ∧ node.dropsGuard then tourBefore i path else tourBefore i (k :: path))

theorem tourBefore_child (i : Nat) (path : List Nat) (node child : Node) (before after : List Node)
    (hchildren : node.normalizeDefinition.children = before ++ child :: after)
    (hplain : ¬ (before.length = 0 ∧ node.dropsGuard = true)) :
    tourBefore i (before.length :: path) node =
      (·.arrive node.normalizeDefinition) :: before.flatMap tour ++ tourBefore i path child := by
  cases path with
  | nil => simp [tourBefore, stepsTo, hchildren]
  | cons k path =>
    rw [tourBefore, if_neg hplain]
    simp [stepsTo, hchildren]

theorem tourBefore_guarded (i : Nat) (path : List Nat) (node head : Node) (after : List Node)
    (hchildren : node.normalizeDefinition.children = head :: after)
    (hdrops : node.dropsGuard = true) :
    tourBefore i (0 :: 0 :: path) node =
      (·.arrive node.normalizeDefinition) :: tourBefore i path head := by
  rw [tourBefore, if_pos ⟨rfl, hdrops⟩]
  simp [stepsTo, hchildren]

theorem normalizeDefinition_plain (name : String) (args : Option (List Node)) (line : Option Int)
    (h : isDefinitionHead name = false) :
    (call name args line).normalizeDefinition = .call name args line := by
  rw [normalizeDefinition, h]
  rfl

end LineScope.Node

namespace LineScope.Metadata

theorem functionDefinition?_plain (name : String) (args : Option (List Node)) (line : Option Int)
    (hd : Node.isDefinitionHead name = false) :
    (Node.call name args line).functionDefinition? = none := by
  cases hf : (Node.call name args line).functionDefinition? with
  | none => rfl
  | some function =>
    obtain ⟨other, head, body, he, hother⟩ := Node.functionDefinition?_inv _ function hf
    cases he
    rw [hd] at hother
    cases hother

theorem arrive_plain (name : String) (args : Option (List Node)) (line : Option Int)
    (hd : Node.isDefinitionHead name = false) (hm : name ≠ "defmodule") (hi : name ≠ "import")
    (ha : name ≠ "alias") (metadata : Metadata) :
    metadata.arrive (.call name args line) = .ok (metadata.recordLine line true) := by
  obtain ⟨himport, halias, hvariable⟩ := Node.plain_call name args line hi ha
  simp only [arrive, Node.moduleDefinition?_eq_none name args line hm,
    functionDefinition?_plain name args line hd, noteNode, himport, halias, hvariable]
  rfl

theorem depart_plain (name : String) (args : Option (List Node)) (line : Option Int)
    (hd : Node.isDefinitionHead name = false) (hm : name ≠ "defmodule") :
    depart (.call name args line) = .ok := by
  funext metadata
  simp only [depart, Node.moduleDefinition?_eq_none name args line hm, Node.functionName?,
    functionDefinition?_plain name args line hd, Option.map_none]

end LineScope.Metadata

namespace LineScope.Node

theorem tour_block (args : Option (List Node)) (line : Option Int) :
    (call blockHead args line).tour =
      (fun metadata => .ok (metadata.recordLine line true)) ::
        ((args.getD []).flatMap tour ++ [.ok]) := by
  rw [tour_eq, normalizeDefinition_plain _ _ _ (by decide),
    Metadata.depart_plain _ _ _ (by decide) (by decide)]
  congr 1
  funext metadata
  exact Metadata.arrive_plain _ _ _ (by decide) (by decide) (by decide) (by decide) metadata

theorem tour_insertArg (new : Node) (i : Nat) (args : Option (List Node)) (line : Option Int)
    (hi : i ≤ (args.getD []).length) :
    ∃ rest, (call blockHead args line).tour = (call blockHead args line).stepsTo i ++ rest ∧
      (insertArg new i (call blockHead args line)).tour =
        (call blockHead args line).stepsTo i ++ (new.tour ++ rest) := by
  have hsteps : (call blockHead args line).stepsTo i =
      (fun metadata => .ok (metadata.recordLine line true)) ::
        ((args.getD []).take i).flatMap tour := by
    rw [stepsTo, normalizeDefinition_plain _ _ _ (by decide)]
    congr 1
    funext metadata
    exact Metadata.arrive_plain _ _ _ (by decide) (by decide) (by decide) (by decide) metadata
  refine ⟨((args.getD []).drop i).flatMap tour ++ [.ok], ?_, ?_⟩
  · rw [tour_block, hsteps, List.cons_append, ← List.append_assoc, ← List.flatMap_append,
      List.take_append_drop]
  · rw [insertArg, tour_block, hsteps, Option.getD_some, insertIdx_split new i _ hi]
    simp

/-- Where the tour over a new argument is put into the tour over a tree. -/
def TourInserts (new : Node) (i : Nat) (path : List Nat) (node : Node) : Prop :=
  ∃ rest, node.tour = node.tourBefore i path ++ rest ∧
    (insertAt new i path node).tour = node.tourBefore i path ++ (new.tour ++ rest)

theorem definedFunction?_of_not_head (new child : Node) (i : Nat) (path : List Nat)
    (hpath : path ≠ []) (line : Int) :
    (insertAt new i path child).definedFunction? line = child.definedFunction? line := by
  obtain ⟨j, path, rfl⟩ := List.exists_cons_of_ne_nil hpath
  exact definedFunction?_insertAt new child i j path line

section Below

variable {new node child : Node} {i : Nat} {path : List Nat} {args : Option (List Node)}
  {line : Option Int}

theorem tourInserts_child (before after : List Node)
    (hchildren : node.children = before ++ child :: after)
    (hbelow : child.at? path = some (.call blockHead args line))
    (hdrops : ¬ (before.length = 0 ∧ node.dropsGuard = true))
    (hhead : ¬ node.IsFunctionHead (before.length :: path))
    (hchild : TourInserts new i path child) : TourInserts new i (before.length :: path) node := by
  have hplain : before = [] → node.takesHead = true → child.isGuarded = false := by
    rintro rfl htakes
    by_contra hguarded
    exact hdrops ⟨rfl, by simpa [dropsGuard, htakes, hchildren] using hguarded⟩
  obtain ⟨before', after', hlength, hnormal, hreplaced⟩ :=
    normal_child node child before after hchildren hplain
  obtain ⟨rest, htour, hinserted⟩ := hchild
  have halike := alike_insertAt new i path child args line hbelow
  have hdefined : before' = [] → node.takesHead = true → ∀ line,
      (insertAt new i path child).definedFunction? line = child.definedFunction? line := by
    intro hb htakes
    have hzero : before.length = 0 := by simpa [hb] using hlength.symm
    refine definedFunction?_of_not_head new child i path ?_
    rintro rfl
    refine hhead ⟨[], node, rfl, htakes, ?_⟩
    rw [if_neg fun hd => hdrops ⟨hzero, hd⟩, hzero]
    rfl
  have hbefore := tourBefore_child i path node child before' after' hnormal (hlength ▸ hdrops)
  refine ⟨rest ++ (after'.flatMap tour ++ [Metadata.depart node.normalizeDefinition]), ?_, ?_⟩
  · rw [← hlength, hbefore, tour_split node child before' after' hnormal, htour]
    simp
  · rw [insertAt_cons new node child i path before after hchildren, ← hlength, hbefore,
      tour_replaced node _ child _ before' after' hnormal (hreplaced _ halike.guarded) halike hdefined,
      hinserted]
    simp

theorem tourInserts_guarded (guards after : List Node) (whenLine : Option Int)
    (hchildren : node.children = .call "when" (some (child :: guards)) whenLine :: after)
    (hbelow : child.at? path = some (.call blockHead args line)) (hdrops : node.dropsGuard = true)
    (hhead : ¬ node.IsFunctionHead (0 :: 0 :: path)) (hchild : TourInserts new i path child) :
    TourInserts new i (0 :: 0 :: path) node := by
  obtain ⟨htakes, -⟩ := (Bool.and_eq_true _ _).mp hdrops
  obtain ⟨after', hnormal, hreplaced⟩ :=
    normal_guarded node child guards after whenLine hchildren htakes
  obtain ⟨rest, htour, hinserted⟩ := hchild
  have halike := alike_insertAt new i path child args line hbelow
  have hdefined : ([] : List Node) = [] → node.takesHead = true → ∀ line,
      (insertAt new i path child).definedFunction? line = child.definedFunction? line := by
    intro _ _
    refine definedFunction?_of_not_head new child i path ?_
    rintro rfl
    exact hhead ⟨[], node, rfl, htakes, by rw [if_pos hdrops]; rfl⟩
  have hinsert : insertAt new i (0 :: 0 :: path) node = node.withChildren
      (.call "when" (some (insertAt new i path child :: guards)) whenLine :: after) := by
    rw [insertAt, hchildren]
    rfl
  have hbefore := tourBefore_guarded i path node child after' hnormal hdrops
  refine ⟨rest ++ (after'.flatMap tour ++ [Metadata.depart node.normalizeDefinition]), ?_, ?_⟩
  · rw [hbefore, tour_split node child [] after' hnormal, htour]
    simp
  · rw [hinsert, hbefore,
      tour_replaced node _ child _ [] after' hnormal (hreplaced _) halike hdefined, hinserted]
    simp

end Below

/-- The tour over a tree in which a block has got another argument is the tour over the tree with that
over the new argument put in. -/
theorem tour_insertAt (new : Node) (i : Nat) (path : List Nat) (node : Node)
    (args : Option (List Node)) (line : Option Int)
    (hat : node.at? path = some (.call blockHead args line)) (hi : i ≤ (args.getD []).length)
    (hguard : ¬ node.InDroppedGuard path) (hhead : ¬ node.IsFunctionHead path) :
    TourInserts new i path node := by
  -- the induction is on the length of the path, since below a guarded head it is shorter by two
  induction hn : path.length using Nat.strongRecOn generalizing path node with
  | _ n ih =>
    cases path with
    | nil =>
      obtain rfl := Option.some.inj hat
      exact tour_insertArg new i args line hi
    | cons j path =>
      obtain ⟨child, hchild, hbelow⟩ := Option.bind_eq_some_iff.mp hat
      obtain ⟨before, after, hchildren, rfl⟩ := children_split node child j hchild
      have hguard' : ¬ child.InDroppedGuard path := fun h => hguard (h.child node child _ path hchild)
      have hhead' : ¬ child.IsFunctionHead path := fun h => hhead (h.child node child _ path hchild)
      by_cases hdrops : before.length = 0 ∧ node.dropsGuard = true
      · obtain ⟨hzero, hdrops⟩ := hdrops
        obtain rfl := List.eq_nil_of_length_eq_zero hzero
        have hguarded := ((Bool.and_eq_true _ _).mp hdrops).2
        obtain ⟨head, guards, whenLine, rfl⟩ :=
          isGuarded_inv child (by simpa [hchildren] using hguarded)
        match path with
        | [] => simp [at?, blockHead] at hbelow
        | (k + 1) :: path => exact absurd ⟨[], node, k, path, rfl, rfl, hdrops⟩ hguard
        | 0 :: path =>
          have hat' : head.at? path = some (.call blockHead args line) := by
            simpa [at?, children] using hbelow
          refine tourInserts_guarded guards after whenLine hchildren hat' hdrops hhead ?_
          refine ih path.length ?_ path head hat' (fun h => hguard' ?_) (fun h => hhead' ?_) rfl
          · simp only [List.length_cons] at hn
            omega
          · exact h.child _ head 0 path rfl
          · exact h.child _ head 0 path rfl
      · refine tourInserts_child before after hchildren hbelow hdrops hhead ?_
        refine ih path.length ?_ path child hbelow hguard' hhead' rfl
        simp only [List.length_cons] at hn
        omega

end LineScope.Node
