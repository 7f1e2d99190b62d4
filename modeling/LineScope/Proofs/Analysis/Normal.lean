import LineScope.Analysis.Metadata
import LineScope.Proofs.Node.Children

/-!
# Normal forms of definitions

The walk looks at every node in the form that `normalizeDefinition` gives it and goes on to the
children of that form.  `settled` is the tree that comes out.  Which nodes are definitions, imports,
aliases or variables, and what they name, can be read off the tree that comes out just as well as
off the nodes that the walk looks at, because a node keeps its outer form when its children settle.
-/

namespace LineScope.Node

/-! ### One definition -/

theorem dropGuard_cases (head : Node) : head.dropGuard = head ∨ head.dropGuard ∈ head.children := by
  unfold dropGuard
  split
  · exact Or.inr (by simp [children])
  · exact Or.inl rfl

theorem mem_normalizedArgs (name : String) (args : List Node) (arg : Node)
    (h : arg ∈ normalizedArgs name args) :
    (∃ a ∈ args, arg = a ∨ arg ∈ a.children) ∨ (arg = .literal .nil ∧ args ≠ []) := by
  have hguard : ∀ head : Node, head ∈ args → arg = head.dropGuard →
      ∃ a ∈ args, arg = a ∨ arg ∈ a.children := by
    intro head hmem he
    rcases dropGuard_cases head with hd | hd
    · exact ⟨head, hmem, Or.inl (he.trans hd)⟩
    · exact ⟨head, hmem, Or.inr (he ▸ hd)⟩
  match args, h, hguard with
  | [], h, _ => simp [normalizedArgs] at h
  | [head], h, hguard =>
    by_cases hc : compileTimeHeads.contains name = true
    · simp only [normalizedArgs, if_pos hc, List.mem_cons, List.not_mem_nil, or_false] at h
      rcases h with h | h
      · exact Or.inl (hguard head List.mem_cons_self h)
      · exact Or.inr ⟨h, List.cons_ne_nil _ _⟩
    · simp only [normalizedArgs, if_neg hc, List.mem_cons, List.not_mem_nil, or_false] at h
      exact Or.inl ⟨head, List.mem_cons_self, Or.inl h⟩
  | [head, body], h, hguard =>
    simp only [normalizedArgs, List.mem_cons, List.not_mem_nil, or_false] at h
    rcases h with h | h
    · exact Or.inl (hguard head List.mem_cons_self h)
    · exact Or.inl ⟨body, by simp, Or.inl h⟩
  | a :: b :: c :: rest, h, _ => exact Or.inl ⟨arg, h, Or.inl rfl⟩

/-- What stands below a normalized definition stood one or two levels below the definition, or is
the body that a definition without one gets. -/
theorem mem_children_normalizeDefinition (node child : Node)
    (h : child ∈ node.normalizeDefinition.children) :
    child ∈ node.children ∨ (∃ inner ∈ node.children, child ∈ inner.children) ∨
      (child = .literal .nil ∧ node.children ≠ []) := by
  cases node with
  | call name args line =>
    by_cases hd : isDefinitionHead name = true
    · simp only [normalizeDefinition, if_pos hd, children, Option.getD_some] at h
      rcases mem_normalizedArgs name _ child h with ⟨a, ha, he | hm⟩ | hnil
      · exact Or.inl (he ▸ ha)
      · exact Or.inr (Or.inl ⟨a, ha, hm⟩)
      · exact Or.inr (Or.inr hnil)
    · simp only [normalizeDefinition, if_neg hd] at h
      exact Or.inl h
  | apply head args line => exact Or.inl h
  | pair left right => exact Or.inl h
  | list items => exact Or.inl h
  | literal value => exact Or.inl h
  | ident name line context => exact Or.inl h

theorem one_le_depth (node : Node) : 1 ≤ node.depth := by
  have h := depth_eq node
  omega

theorem depth_normalizeDefinition_le (node : Node) :
    node.normalizeDefinition.depth ≤ node.depth := by
  have hpos := one_le_depth node
  have hall : depthList node.normalizeDefinition.children ≤ node.depth - 1 := by
    rw [depthList_le_iff]
    intro child hc
    rcases mem_children_normalizeDefinition node child hc with hm | ⟨inner, hi, hm⟩ | ⟨rfl, hne⟩
    · have hlt := depth_lt_of_mem_children node child hm
      omega
    · have h1 := depth_lt_of_mem_children node inner hi
      have h2 := depth_lt_of_mem_children inner child hm
      omega
    · obtain ⟨first, hf⟩ := List.exists_mem_of_ne_nil _ hne
      have h1 := depth_lt_of_mem_children node first hf
      have h2 := one_le_depth first
      have h3 : (Node.literal .nil).depth = 1 := rfl
      omega
  have h := depth_eq node.normalizeDefinition
  omega

theorem depth_lt_of_mem_children_normalizeDefinition (node child : Node)
    (h : child ∈ node.normalizeDefinition.children) : child.depth < node.depth :=
  Nat.lt_of_lt_of_le (depth_lt_of_mem_children _ child h) (depth_normalizeDefinition_le node)

/-! ### Whole trees -/

/-- A tree with its definitions normalized down to a depth. -/
def settleTo : Nat → Node → Node
  | 0, node => node
  | limit + 1, node =>
    node.normalizeDefinition.withChildren (node.normalizeDefinition.children.map (settleTo limit))

/-- A tree with all its definitions normalized. -/
def settled (node : Node) : Node := settleTo node.depth node

/-- A node whose children are settled. -/
def refined (node : Node) : Node := node.withChildren (node.children.map settled)

theorem settleTo_eq_settled (limit : Nat) (node : Node) (h : node.depth ≤ limit) :
    settleTo limit node = node.settled := by
  have key : ∀ (a b : Nat) (node : Node), node.depth ≤ a → node.depth ≤ b →
      settleTo a node = settleTo b node := by
    intro a
    induction a with
    | zero =>
      intro b node ha _
      have hpos := one_le_depth node
      omega
    | succ a ih =>
      intro b node ha hb
      cases b with
      | zero =>
        have hpos := one_le_depth node
        omega
      | succ b =>
        simp only [settleTo]
        congr 1
        refine List.map_congr_left fun child hc => ?_
        have hlt := depth_lt_of_mem_children_normalizeDefinition node child hc
        exact ih b child (by omega) (by omega)
  exact key limit node.depth node h (Nat.le_refl _)

theorem settled_eq (node : Node) : node.settled = node.normalizeDefinition.refined := by
  obtain ⟨limit, hl⟩ : ∃ limit, node.depth = limit + 1 := ⟨_, depth_eq node⟩
  rw [settled, hl, settleTo, refined]
  congr 1
  refine List.map_congr_left fun child hc => settleTo_eq_settled limit child ?_
  have hlt := depth_lt_of_mem_children_normalizeDefinition node child hc
  omega

theorem children_refined (node : Node) : node.refined.children = node.children.map settled :=
  children_withChildren_map node settled

theorem depth_settled_le (node : Node) : node.settled.depth ≤ node.depth := by
  induction node using induction_depth with
  | step node ih =>
    have hle := depth_normalizeDefinition_le node
    have hall : depthList (node.normalizeDefinition.children.map settled) ≤
        depthList node.normalizeDefinition.children := by
      rw [depthList_le_iff]
      intro child hc
      obtain ⟨source, hs, rfl⟩ := List.mem_map.mp hc
      have hlt := depth_lt_of_mem_children_normalizeDefinition node source hs
      exact Nat.le_trans (ih source hlt) ((depthList_le_iff _ _).mp (Nat.le_refl _) source hs)
    rw [settled_eq, depth_eq, children_refined]
    have hd := depth_eq node.normalizeDefinition
    omega

theorem refined_call (name : String) (args : Option (List Node)) (line : Option Int) :
    (call name args line).refined = .call name (args.map (·.map settled)) line := by
  cases args <;> rfl

theorem settled_call_of_not_definition (name : String) (args : Option (List Node))
    (line : Option Int) (h : isDefinitionHead name = false) :
    (call name args line).settled = .call name (args.map (·.map settled)) line := by
  rw [settled_eq, normalizeDefinition, h]
  exact refined_call name args line

theorem settled_call (name : String) (args : Option (List Node)) (line : Option Int) :
    ∃ args', (call name args line).settled = .call name args' line := by
  rw [settled_eq, normalizeDefinition]
  split
  · exact ⟨_, refined_call _ _ _⟩
  · exact ⟨_, refined_call _ _ _⟩

theorem settled_pair (left right : Node) :
    (pair left right).settled = .pair left.settled right.settled := by
  rw [settled_eq]
  rfl

theorem settled_list (items : List Node) :
    (list items).settled = .list (items.map settled) := by
  rw [settled_eq]
  rfl

/-! ### What settling keeps -/

theorem line_refined (node : Node) : node.refined.line = node.line := by
  cases node <;> rfl

theorem variableName?_refined (node : Node) : node.refined.variableName? = node.variableName? := by
  cases node <;> rfl

theorem atomName?_settled (node : Node) : node.settled.atomName? = node.atomName? := by
  cases node with
  | call name args line =>
    obtain ⟨args', h⟩ := settled_call name args line
    rw [h]
    rfl
  | apply head args line => rw [settled_eq]; rfl
  | pair left right => rw [settled_pair]; rfl
  | list items => rw [settled_list]; rfl
  | literal value => rw [settled_eq]; rfl
  | ident name line context => rw [settled_eq]; rfl

theorem segments?_settled (node : Node) : node.settled.segments? = node.segments? := by
  cases node with
  | call name args line =>
    by_cases hname : name = aliasesHead
    · subst hname
      rw [settled_call_of_not_definition _ _ _ (by decide)]
      cases args with
      | none => rfl
      | some args =>
        simp only [Option.map_some, segments?, if_true, List.mapM_map, Function.comp_def,
          atomName?_settled]
    · obtain ⟨args', h⟩ := settled_call name args line
      rw [h]
      have hnone : ∀ args : Option (List Node), (call name args line).segments? = none := by
        intro args
        cases args with
        | none => rfl
        | some args => simp only [segments?, if_neg hname]
      rw [hnone, hnone]
  | apply head args line => rw [settled_eq]; rfl
  | pair left right => rw [settled_pair]; rfl
  | list items => rw [settled_list]; rfl
  | literal value => rw [settled_eq]; rfl
  | ident name line context => rw [settled_eq]; rfl

theorem moduleName?_settled (node : Node) : node.settled.moduleName? = node.moduleName? := by
  rw [moduleName?, moduleName?, segments?_settled]

theorem entryValue?_settled (key : String) (node : Node) :
    node.settled.entryValue? key = (node.entryValue? key).map settled := by
  cases node with
  | call name args line =>
    obtain ⟨args', h⟩ := settled_call name args line
    rw [h]
    rfl
  | apply head args line => rw [settled_eq]; rfl
  | pair left right =>
    rw [settled_pair]
    simp only [entryValue?, atomName?_settled]
    split <;> rfl
  | list items => rw [settled_list]; rfl
  | literal value => rw [settled_eq]; rfl
  | ident name line context => rw [settled_eq]; rfl

theorem keyword?_settled (key : String) (node : Node) :
    node.settled.keyword? key = (node.keyword? key).map settled := by
  cases node with
  | call name args line =>
    obtain ⟨args', h⟩ := settled_call name args line
    rw [h]
    rfl
  | apply head args line => rw [settled_eq]; rfl
  | pair left right => rw [settled_pair]; rfl
  | list items =>
    rw [settled_list]
    simp only [keyword?]
    induction items with
    | nil => rfl
    | cons item items ih =>
      simp only [List.map_cons, List.findSome?_cons, entryValue?_settled]
      cases item.entryValue? key with
      | none => exact ih
      | some value => rfl
  | literal value => rw [settled_eq]; rfl
  | ident name line context => rw [settled_eq]; rfl

/-! ### Recognising definitions and directives -/

theorem moduleDefinition?_eq_none (name : String) (args : Option (List Node)) (line : Option Int)
    (h : name ≠ "defmodule") : (call name args line).moduleDefinition? = none := by
  unfold moduleDefinition?
  split
  · rename_i he
    cases he
    exact absurd rfl h
  · rfl

theorem moduleDefinition?_refined (node : Node) :
    node.refined.moduleDefinition? = node.moduleDefinition? := by
  cases node with
  | call name args line =>
    rw [refined_call]
    by_cases h : name = "defmodule"
    · subst h
      match args, line with
      | none, _ => rfl
      | some [], _ => rfl
      | some [_], _ => rfl
      | some [_, _], none => rfl
      | some [first, second], some line =>
        simp only [Option.map_some, List.map_cons, List.map_nil, moduleDefinition?,
          segments?_settled]
      | some (_ :: _ :: _ :: _), _ => rfl
    · rw [moduleDefinition?_eq_none _ _ _ h, moduleDefinition?_eq_none _ _ _ h]
  | apply head args line => rfl
  | pair left right => rfl
  | list items => rfl
  | literal value => rfl
  | ident name line context => rfl

/-- The name of the function that a normalized definition defines.  Its arity is left out: the
arguments of the head may settle to more of them. -/
def functionName? (node : Node) : Option String := node.functionDefinition?.map (·.name)

theorem definedFunction?_settled (line : Int) (node : Node) :
    (node.settled.definedFunction? line).map (·.name) =
      (node.definedFunction? line).map (·.name) := by
  cases node with
  | call name args line' =>
    obtain ⟨args', h⟩ := settled_call name args line'
    rw [h]
    rfl
  | apply head args line => rw [settled_eq]; rfl
  | pair left right => rw [settled_pair]; rfl
  | list items => rw [settled_list]; rfl
  | literal value => rw [settled_eq]; rfl
  | ident name line context => rw [settled_eq]; rfl

theorem functionName?_refined (node : Node) : node.refined.functionName? = node.functionName? := by
  cases node with
  | call name args line =>
    rw [refined_call, functionName?, functionName?]
    match args, line with
    | none, _ => rfl
    | some [], _ => rfl
    | some [_], _ => rfl
    | some [first, second], none => rfl
    | some [first, second], some line =>
      simp only [Option.map_some, List.map_cons, List.map_nil, functionDefinition?]
      split
      · exact definedFunction?_settled line first
      · rfl
    | some (_ :: _ :: _ :: _), _ => rfl
  | apply head args line => rfl
  | pair left right => rfl
  | list items => rfl
  | literal value => rfl
  | ident name line context => rfl

/-- Whether a node opens a scope: it is a module or a function definition. -/
def isDefinition (node : Node) : Bool :=
  node.moduleDefinition?.isSome || node.functionName?.isSome

theorem isDefinition_refined (node : Node) : node.refined.isDefinition = node.isDefinition := by
  rw [isDefinition, isDefinition, moduleDefinition?_refined, functionName?_refined]

theorem directive?_refined (name : String) (node : Node) :
    node.refined.directive? name =
      (node.directive? name).map fun found => (found.1.settled, found.2.map settled) := by
  cases node with
  | call head args line =>
    rw [refined_call]
    match args, line with
    | none, _ => rfl
    | some [], _ => rfl
    | some [_], none => rfl
    | some [_], some _ =>
      simp only [Option.map_some, List.map_cons, List.map_nil, directive?]
      split <;> rfl
    | some [_, _], none => rfl
    | some [_, _], some _ =>
      simp only [Option.map_some, List.map_cons, List.map_nil, directive?]
      split <;> rfl
    | some (_ :: _ :: _ :: _), _ => rfl
  | apply head args line => rfl
  | pair left right => rfl
  | list items => rfl
  | literal value => rfl
  | ident name line context => rfl

theorem importTarget?_refined (node : Node) : node.refined.importTarget? = node.importTarget? := by
  rw [importTarget?, importTarget?, directive?_refined]
  cases node.directive? "import" with
  | none => rfl
  | some found => exact moduleName?_settled found.1

theorem aliasBinding?_refined (node : Node) : node.refined.aliasBinding? = node.aliasBinding? := by
  rw [aliasBinding?, aliasBinding?, directive?_refined]
  cases node.directive? "alias" with
  | none => rfl
  | some found =>
    obtain ⟨target, options⟩ := found
    have hoptions : (options.map settled).bind (keyword? "as") =
        (options.bind (keyword? "as")).map settled := by
      cases options with
      | none => rfl
      | some options => exact keyword?_settled "as" options
    simp only [Option.map_some, segments?_settled, hoptions]
    cases target.segments? with
    | none => rfl
    | some segments =>
      cases options.bind (keyword? "as") with
      | none => rfl
      | some short => simp only [Option.map_some, moduleName?_settled]

/-- The alias that a directive binds. -/
def binding? (node : Node) : Option (String × String) := node.aliasBinding?.toOption.join

theorem binding?_refined (node : Node) : node.refined.binding? = node.binding? := by
  rw [binding?, binding?, aliasBinding?_refined]

/-! ### Names without segments -/

/-- Every module name in a tree has at least one segment. -/
def NamesModules (node : Node) : Prop := ∀ other ∈ node.occurrences, other.segments? ≠ some []

instance (node : Node) : Decidable node.NamesModules :=
  inferInstanceAs (Decidable (∀ other ∈ node.occurrences, other.segments? ≠ some []))

/-- Whether a node needs the last segment of a module name that has no segments: it defines a module
under such a name, or binds an alias to it without giving a short name. -/
def lacksName (node : Node) : Bool :=
  node.moduleDefinition?.any (·.1.isEmpty) || !node.aliasBinding?.isOk

theorem moduleDefinition?_inv (node : Node) (segments : List String) (line : Int)
    (h : node.moduleDefinition? = some (segments, line)) :
    ∃ name body, node = .call "defmodule" (some [name, body]) (some line) ∧
      name.segments? = some segments := by
  unfold moduleDefinition? at h
  split at h
  · rename_i name body line'
    obtain ⟨found, hs, he⟩ := Option.map_eq_some_iff.mp h
    cases he
    exact ⟨name, body, rfl, hs⟩
  · cases h

theorem directive?_mem_children (name : String) (node target : Node) (options : Option Node)
    (h : node.directive? name = some (target, options)) : target ∈ node.children := by
  unfold directive? at h
  split at h
  · split at h
    · cases h
      exact List.mem_cons_self
    · cases h
  · split at h
    · cases h
      exact List.mem_cons_self
    · cases h
  · cases h

theorem aliasBinding?_isOk_of (node : Node)
    (h : ∀ child ∈ node.children, child.segments? ≠ some []) : node.aliasBinding?.isOk = true := by
  unfold aliasBinding?
  split
  · rfl
  · rename_i target options hd
    have hmem := directive?_mem_children "alias" node target options hd
    split
    · rfl
    · rename_i segments hs
      dsimp only
      split
      · obtain ⟨last, hl⟩ : ∃ last, segments.getLast? = some last := by
          cases hl : segments.getLast? with
          | some last => exact ⟨last, rfl⟩
          | none =>
            rw [List.getLast?_eq_none_iff] at hl
            exact absurd (hl ▸ hs) (h target hmem)
        simp only [lastSegment, hl]
        rfl
      · rfl

theorem lacksName_eq_false_of (node : Node)
    (h : ∀ child ∈ node.children, child.segments? ≠ some []) : node.lacksName = false := by
  rw [lacksName, aliasBinding?_isOk_of node h]
  cases hm : node.moduleDefinition? with
  | none => rfl
  | some found =>
    obtain ⟨segments, line⟩ := found
    obtain ⟨name, body, rfl, hs⟩ := moduleDefinition?_inv node segments line hm
    cases segments with
    | nil => exact absurd hs (h name List.mem_cons_self)
    | cons segment rest => rfl

/-- What holds of every node of a tree, and of the body that a definition without one gets, holds of
every node below the normalized definition. -/
theorem forall_occurrences_child {P : Node → Prop} (hnil : P (.literal .nil)) (node child : Node)
    (h : ∀ other ∈ node.occurrences, P other) (hc : child ∈ node.normalizeDefinition.children) :
    ∀ other ∈ child.occurrences, P other := by
  intro other ho
  rcases mem_children_normalizeDefinition node child hc with hm | ⟨inner, hi, hm⟩ | ⟨rfl, _⟩
  · exact h other (mem_occurrences_of_mem_children node child other hm ho)
  · have ho' := mem_occurrences_of_mem_children inner child other hm ho
    exact h other (mem_occurrences_of_mem_children node inner other hi ho')
  · have he : other = .literal .nil := by simpa [occurrences_eq, children] using ho
    rw [he]
    exact hnil

theorem NamesModules.child (node child : Node) (h : node.NamesModules)
    (hc : child ∈ node.normalizeDefinition.children) : child.NamesModules :=
  forall_occurrences_child (by simp [segments?]) node child h hc

theorem NamesModules.lacksName_normalizeDefinition (node : Node) (h : node.NamesModules) :
    node.normalizeDefinition.lacksName = false :=
  lacksName_eq_false_of _ fun child hc =>
    NamesModules.child node child h hc child (self_mem_occurrences child)

end LineScope.Node
