import LineScope.Proofs.Analysis.Insertion

/-!
# Guards do not count

The walk drops the guard of a function head before it looks at the head and never goes down into it.
So two trees that differ in such guards only have the same tour, and are analysed alike.
-/

namespace LineScope.Node

/-! ### Trees that differ in guards -/

/-- A head with a guard on a line, or without one. -/
def withGuard (guard : Option (List Node × Option Int)) (head : Node) : Node :=
  match guard with
  | none => head
  | some (conditions, line) => .call "when" (some (head :: conditions)) line

/-- Two trees that are the same but for the guards of function definitions, at any number of places.
The heads in front of the guards are not guarded themselves, since only one guard is dropped. -/
inductive SameUpToGuards : Node → Node → Prop
  | within (node : Node) (nodes : List Node)
      (children : List.Forall₂ SameUpToGuards node.children nodes) :
      SameUpToGuards node (node.withChildren nodes)
  | definition (name : String) (line : Option Int) (head head' : Node) (rest rest' : List Node)
      (guard guard' : Option (List Node × Option Int))
      (takes : (call name (some (head :: rest)) line).takesHead = true)
      (bare : head.isGuarded = false) (heads : SameUpToGuards head head')
      (rests : List.Forall₂ SameUpToGuards rest rest') :
      SameUpToGuards (.call name (some (head.withGuard guard :: rest)) line)
        (.call name (some (head'.withGuard guard' :: rest')) line)

theorem withChildren_withChildren (node : Node) (nodes others : List Node)
    (h : others.length = node.children.length) :
    (node.withChildren nodes).withChildren others = node.withChildren others := by
  cases node with
  | call name args line => cases args <;> rfl
  | apply head args line =>
    obtain ⟨first, rest, rfl⟩ := List.exists_cons_of_length_eq_add_one h
    cases args <;> rfl
  | pair left right =>
    obtain ⟨first, second, rfl⟩ := List.length_eq_two.mp h
    rfl
  | _ => rfl

theorem isDefinitionHead_of_takesHead (name : String) (args : Option (List Node))
    (line : Option Int) (h : (call name args line).takesHead = true) :
    isDefinitionHead name = true :=
  ((Bool.and_eq_true _ _).mp h).1

namespace SameUpToGuards

theorem forall_pairs {P : Node → Node → Prop} (nodes others : List Node)
    (h : List.Forall₂ SameUpToGuards nodes others)
    (hall : ∀ node ∈ nodes, ∀ other, SameUpToGuards node other → P node other) :
    List.Forall₂ P nodes others :=
  ((List.forall₂_and_left _ _).mpr ⟨hall, h⟩).imp fun _ other hpair => hpair.1 other hpair.2

theorem refl (node : Node) : SameUpToGuards node node := by
  induction node using induction_depth with
  | step node ih =>
    have hself : List.Forall₂ SameUpToGuards node.children node.children :=
      List.forall₂_same.mpr fun child hc => ih child (depth_lt_of_mem_children node child hc)
    simpa using SameUpToGuards.within node node.children hself

theorem alike {first second : Node} (h : SameUpToGuards first second) : Alike first second := by
  induction first using induction_depth generalizing second with
  | step first ih =>
    cases h with
    | within _ nodes hnodes =>
      refine alike_withChildren first nodes (forall_pairs _ _ hnodes fun child hc other ho => ?_)
      exact ih child (depth_lt_of_mem_children first child hc) ho
    | definition name line head head' rest rest' guard guard' takes bare heads rests =>
      have hd := isDefinitionHead_of_takesHead _ _ _ takes
      have haliases : name ≠ aliasesHead := by
        rintro rfl
        exact absurd hd (by decide)
      refine ⟨rfl, ?_, rfl, rfl, ?_⟩
      · simp [segments?, haliases]
      · simp [isGuarded_call]

theorem definedFunction? {first second : Node} (h : SameUpToGuards first second) (line : Int) :
    second.definedFunction? line = first.definedFunction? line := by
  cases h with
  | within _ nodes hnodes =>
    have hlength := hnodes.length_eq
    cases first with
    | call name args line' =>
      cases args with
      | none => rfl
      | some args => simp [withChildren, Node.definedFunction?, ← hlength, children]
    | _ => rfl
  | definition name line' head head' rest rest' guard guard' takes bare heads rests =>
    simp [Node.definedFunction?, rests.length_eq]

theorem dropGuard {first second : Node} (h : SameUpToGuards first second) :
    SameUpToGuards first.dropGuard second.dropGuard := by
  have halike := h.alike
  cases hguarded : first.isGuarded with
  | false =>
    rw [dropGuard_of_not_guarded first hguarded,
      dropGuard_of_not_guarded second (halike.guarded.trans hguarded)]
    exact h
  | true =>
    obtain ⟨head, guards, line, rfl⟩ := isGuarded_inv first hguarded
    cases h with
    | within _ nodes hnodes =>
      obtain ⟨head', guards', hhead, -, rfl⟩ := List.forall₂_cons_left_iff.mp hnodes
      exact hhead
    | definition name line head head' rest rest' guard guard' takes bare heads rests =>
      exact absurd (isDefinitionHead_of_takesHead _ _ _ takes) (by decide)

theorem bodyOf {first second : List Node} (h : List.Forall₂ SameUpToGuards first second) :
    SameUpToGuards (bodyOf first) (bodyOf second) := by
  rcases h with _ | ⟨_, _ | ⟨hbody, _ | _⟩⟩
  · exact refl _
  · exact refl _
  · exact hbody
  · exact refl _

end SameUpToGuards

/-! ### Normal forms -/

@[simp]
theorem dropGuard_withGuard (guard : Option (List Node × Option Int)) (head : Node)
    (h : head.isGuarded = false) : (head.withGuard guard).dropGuard = head := by
  cases guard with
  | none => exact dropGuard_of_not_guarded head h
  | some guard => rfl

/-- The normal forms of two trees that differ in guards have the same outer form, and children that
differ in guards. -/
theorem SameUpToGuards.normalizeDefinition {first second : Node} (h : SameUpToGuards first second) :
    ∃ nodes, second.normalizeDefinition = first.normalizeDefinition.withChildren nodes ∧
      List.Forall₂ SameUpToGuards first.normalizeDefinition.children nodes := by
  cases h with
  | within _ nodes hnodes =>
    cases first with
    | call name args line =>
      cases args with
      | none =>
        exact ⟨(call name none line).normalizeDefinition.children, (withChildren_children _).symm,
          List.forall₂_same.mpr fun child _ => refl child⟩
      | some args =>
        have hsame := takesHead_call_some name args nodes line hnodes.length_eq
        cases htakes : (call name (some args) line).takesHead with
        | false =>
          refine ⟨nodes, ?_, ?_⟩
          · rw [normalizeDefinition_of_not_takesHead _ _ _ htakes]
            exact normalizeDefinition_of_not_takesHead _ _ _ (hsame ▸ htakes)
          · rw [normalizeDefinition_of_not_takesHead _ _ _ htakes]
            exact hnodes
        | true =>
          cases hnodes with
          | nil => simp [takesHead] at htakes
          | @cons head head' rest rest' hhead hrest =>
            refine ⟨[head'.dropGuard, Node.bodyOf (head' :: rest')], ?_, ?_⟩
            · rw [normalizeDefinition_of_takesHead _ _ _ _ htakes]
              exact normalizeDefinition_of_takesHead _ _ _ _ (hsame ▸ htakes)
            · rw [normalizeDefinition_of_takesHead _ _ _ _ htakes]
              exact .cons hhead.dropGuard (.cons (bodyOf (.cons hhead hrest)) .nil)
    | _ => exact ⟨nodes, rfl, hnodes⟩
  | definition name line head head' rest rest' guard guard' takes bare heads rests =>
    have htakes : ∀ other others, others.length = rest.length →
        (call name (some (other :: others)) line).takesHead = true := by
      intro other others hlength
      rw [← takes]
      exact takesHead_call_some name _ _ line (by simp [hlength])
    have bare' := heads.alike.guarded.trans bare
    refine ⟨[head', Node.bodyOf (head' :: rest')], ?_, ?_⟩
    · rw [normalizeDefinition_of_takesHead _ _ _ _ (htakes _ _ rests.length_eq.symm),
        normalizeDefinition_of_takesHead _ _ _ _ (htakes _ _ rfl),
        dropGuard_withGuard guard' head' bare']
      rcases rest' with _ | ⟨body, _ | _⟩ <;> rfl
    · rw [normalizeDefinition_of_takesHead _ _ _ _ (htakes _ _ rfl),
        dropGuard_withGuard guard head bare]
      refine .cons heads (.cons ?_ .nil)
      have hbody : Node.bodyOf (head.withGuard guard :: rest) = Node.bodyOf (head :: rest) := by
        rcases rest with _ | ⟨body, _ | _⟩ <;> rfl
      rw [hbody]
      exact bodyOf (.cons heads rests)

theorem functionDefinition?_congr (node : Node) (nodes : List Node)
    (h : List.Forall₂ SameUpToGuards node.children nodes) :
    (node.withChildren nodes).functionDefinition? = node.functionDefinition? := by
  cases node with
  | call name args line =>
    cases args with
    | none => rfl
    | some args =>
      show (call name (some nodes) line).functionDefinition? = _
      cases line with
      | none => simp [functionDefinition?]
      | some line =>
        rcases h with _ | ⟨hhead, _ | ⟨_, _ | _⟩⟩
        · rfl
        · rfl
        · simp only [functionDefinition?, hhead.definedFunction?]
        · rfl
  | _ => rfl

/-! ### Runs -/

theorem map_congr_of_forall₂ {α : Type} (f : Node → α) (first second : List Node)
    (h : List.Forall₂ (fun node other => f other = f node) first second) :
    second.map f = first.map f := by
  induction h with
  | nil => rfl
  | cons hhead _ ih => rw [List.map_cons, List.map_cons, hhead, ih]

/-- Trees that differ in guards settle to one tree, and the walk takes the same steps on them. -/
theorem SameUpToGuards.settled_and_tour {first second : Node} (h : SameUpToGuards first second) :
    second.settled = first.settled ∧ second.tour = first.tour := by
  induction first using induction_depth generalizing second with
  | step first ih =>
    obtain ⟨nodes, hnormal, hnodes⟩ := h.normalizeDefinition
    have halike : List.Forall₂ Alike first.normalizeDefinition.children nodes :=
      hnodes.imp fun _ _ hc => hc.alike
    have hfunction := functionDefinition?_congr _ nodes hnodes
    have hbelow : List.Forall₂ (fun child other =>
        other.settled = child.settled ∧ other.tour = child.tour)
        first.normalizeDefinition.children nodes :=
      forall_pairs _ _ hnodes fun child hc other ho =>
        ih child (depth_lt_of_mem_children_normalizeDefinition first child hc) ho
    have hsettled : nodes.map settled = first.normalizeDefinition.children.map settled :=
      map_congr_of_forall₂ settled _ _ (hbelow.imp fun _ _ hc => hc.1)
    have htours : nodes.map tour = first.normalizeDefinition.children.map tour :=
      map_congr_of_forall₂ tour _ _ (hbelow.imp fun _ _ hc => hc.2)
    have hchildren : second.normalizeDefinition.children = nodes := by
      rw [hnormal]
      exact children_withChildren _ nodes hnodes.length_eq.symm
    -- the normal forms differ below their children only, where the hypothesis has both equal
    constructor
    · rw [settled_eq, settled_eq first, refined, refined, hchildren, hsettled, hnormal]
      exact withChildren_withChildren _ _ _ (List.length_map settled)
    · have harrive : (fun metadata : Metadata => metadata.arrive second.normalizeDefinition) =
          fun metadata => metadata.arrive first.normalizeDefinition := by
        funext metadata
        rw [hnormal]
        exact Metadata.arrive_withChildren _ nodes halike hfunction metadata
      have hdepart : Metadata.depart second.normalizeDefinition =
          Metadata.depart first.normalizeDefinition := by
        rw [hnormal]
        exact Metadata.depart_withChildren _ nodes halike hfunction
      rw [tour_eq, tour_eq first, harrive, hdepart, hchildren, List.flatMap_def, htours,
        List.flatMap_def]

end LineScope.Node

namespace LineScope.Metadata

/-- Guards of function definitions never change the analysis of a tree, be it an error or a settled
tree with its metadata. -/
theorem build_of_sameUpToGuards (first second : Node) (h : Node.SameUpToGuards first second) :
    build second = build first := by
  obtain ⟨hsettled, htour⟩ := h.settled_and_tour
  rw [build, build, walk_eq_run, walk_eq_run, hsettled, htour]

/-- A function and a macro without a body, with or without guards. -/
def guardedPair (functionGuard macroGuard : Option (List Node × Option Int)) : Node :=
  .block
    [.call "def" (some [Node.withGuard functionGuard (.call "run" (some [.ident "x" (some 2) none])
        (some 2)), .ident "x" (some 3) none]) (some 2),
      .call "defmacro" (some [Node.withGuard macroGuard (.ident "other" (some 5) none)]) (some 5)]

/-- A definition in a guard leaves no trace, and a guard on a line of its own records no line. -/
theorem build_guardedPair :
    (∃ tree metadata, build (guardedPair none (some ([.ident "y" none none], none))) =
      .ok (tree, metadata) ∧ metadata.contexts.keys = [2, 5]) ∧
    build (guardedPair (some ([.call "def" (some [.ident "hidden" (some 8) none, .literal .nil])
        (some 8)], some 9)) none) =
      build (guardedPair none (some ([.ident "y" none none], none))) := by
  refine ⟨⟨_, _, rfl, rfl⟩, build_of_sameUpToGuards _ _ ?_⟩
  refine .within _ [_, _] (.cons ?_ (.cons ?_ .nil))
  · exact .definition "def" (some 2) _ _ [_] [_] none (some _) (by decide) (by decide) (.refl _)
      (.cons (.refl _) .nil)
  · exact .definition "defmacro" (some 5) _ _ [] [] (some _) none (by decide) (by decide)
      (.refl _) .nil

end LineScope.Metadata
