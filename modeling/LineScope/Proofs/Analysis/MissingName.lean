import LineScope.Proofs.Analysis.Run

/-!
# Missing names

When the analysis of a tree fails.  A directive that needs a missing name stops the walk at once.  A
module under a name without segments may go unnoticed at first, but closing its scope drops the names
of all open scopes, and from then on no state is balanced.
-/

namespace LineScope

theorem ok_of_bind {ε α β : Type} (first : Except ε α) (rest : α → Except ε β) (result : β)
    (h : (first >>= rest) = .ok result) : ∃ value, first = .ok value ∧ rest value = .ok result := by
  cases first with
  | error e => cases h
  | ok value => exact ⟨value, rfl, h⟩

/-! ### Names of open scopes -/

namespace Scope

theorem addImport_names (scope next : Scope) (name : String) (h : scope.addImport name = .ok next) :
    next.names = scope.names := by
  unfold addImport at h
  split at h
  · cases h
    rfl
  · cases h

theorem addAlias_names (scope next : Scope) (short full : String)
    (h : scope.addAlias short full = .ok next) : next.names = scope.names := by
  unfold addAlias at h
  split at h
  · cases h
    rfl
  · cases h

theorem addVar_names (scope next : Scope) (name : String) (h : scope.addVar name = .ok next) :
    next.names = scope.names := by
  unfold addVar at h
  split at h
  · cases h
    rfl
  · cases h

theorem leave_names (scope next : Scope) (depth moduleDepth : Int)
    (h : scope.leave depth moduleDepth = .ok next) :
    depth < scope.names.length ∧ next.names = keptNames scope.names depth := by
  unfold leave at h
  split at h
  · cases h
  · rename_i hcond
    split at h
    · cases h
      exact ⟨by omega, rfl⟩
    · cases h

end Scope

namespace Metadata

theorem withScope_ok (metadata next : Metadata) (scope : Except ScopeError Scope)
    (h : metadata.withScope scope = .ok next) : scope = .ok next.scope := by
  cases scope with
  | error e => cases h
  | ok scope =>
    cases h
    rfl

theorem enterModule_names (metadata next : Metadata) (segments : List String) (line : Int)
    (h : metadata.enterModule segments line = .ok next) :
    next.scope.names = segments.reverse ++ metadata.scope.names := by
  unfold enterModule at h
  dsimp only at h
  split at h
  · obtain ⟨short, _, h⟩ := ok_of_bind _ _ _ h
    obtain ⟨scope, hadd, h⟩ := ok_of_bind _ _ _ h
    cases h
    show segments.reverse ++ scope.names = _
    rw [Scope.addAlias_names _ _ _ _ hadd]
  · cases h
    rfl

theorem noteVariable_names (metadata next : Metadata) (name : String)
    (h : metadata.noteVariable name = .ok next) : next.scope.names = metadata.scope.names := by
  unfold noteVariable at h
  split at h
  · cases h
    rfl
  · obtain ⟨scopeName, _, h⟩ := ok_of_bind _ _ _ h
    split at h
    · cases h
      rfl
    · exact Scope.addVar_names _ _ _ (withScope_ok _ _ _ h)

theorem recordLine_scope (metadata : Metadata) (line : Option Int) (withVars : Bool) :
    (metadata.recordLine line withVars).scope = metadata.scope := by
  cases line <;> rfl

theorem noteNode_names (metadata next : Metadata) (node : Node)
    (h : metadata.noteNode node = .ok next) :
    next.scope.names = metadata.scope.names ∧ node.aliasBinding?.isOk = true := by
  unfold noteNode at h
  split at h
  · rename_i target hi
    have hnames := Scope.addImport_names _ _ _ (withScope_ok _ _ _ h)
    rw [recordLine_scope] at hnames
    refine ⟨hnames, ?_⟩
    obtain ⟨_, _, _, _, _, ha⟩ := Node.of_importTarget? _ _ hi
    rw [ha]
    rfl
  · obtain ⟨binding, hbinding, h⟩ := ok_of_bind _ _ _ h
    refine ⟨?_, by rw [hbinding]; rfl⟩
    split at h
    · have hnames := Scope.addAlias_names _ _ _ _ (withScope_ok _ _ _ h)
      rwa [recordLine_scope] at hnames
    · split at h
      · exact noteVariable_names _ _ _ h
      · cases h
        rw [recordLine_scope]

/-- The names that the scope of a node enters, innermost first; none unless it is a definition. -/
def enteredNames (node : Node) : List String := Enclosure.names ⟨[], node⟩

/-- An arrival that does not fail enters the names of the node, and of all names without segments
it can only have met that of a module. -/
theorem arrive_names (metadata next : Metadata) (node : Node) (h : metadata.arrive node = .ok next) :
    next.scope.names = enteredNames node ++ metadata.scope.names ∧
      (node.lacksName = true → ∃ line, node.moduleDefinition? = some ([], line)) := by
  unfold arrive at h
  split at h
  · rename_i segments line hm
    have hentered : enteredNames node = segments.reverse := by simp [enteredNames, Enclosure.names, hm]
    obtain ⟨_, _, ha, _⟩ := Node.of_moduleDefinition? _ _ _ hm
    rw [hentered]
    refine ⟨enterModule_names _ _ _ _ h, ?_⟩
    intro hlacks
    have hok : node.aliasBinding?.isOk = true := by rw [ha]; rfl
    have hempty : segments = [] := by simpa [Node.lacksName, hm, hok] using hlacks
    exact ⟨line, by rw [hm, hempty]⟩
  · rename_i hm
    split at h
    · rename_i function hf
      obtain ⟨_, _, _, ha, _⟩ := Node.of_functionDefinition? _ _ hf
      have hentered : enteredNames node = [function.name] := by
        simp [enteredNames, Enclosure.names, hm, Node.functionName?, hf]
      cases h
      rw [hentered]
      refine ⟨rfl, ?_⟩
      intro hlacks
      have hok : node.aliasBinding?.isOk = true := by rw [ha]; rfl
      simp [Node.lacksName, hm, hok] at hlacks
    · rename_i hf
      have hentered : enteredNames node = [] := by
        simp [enteredNames, Enclosure.names, hm, Node.functionName?, hf]
      obtain ⟨hnames, hok⟩ := noteNode_names _ _ _ h
      rw [hentered]
      refine ⟨hnames, ?_⟩
      intro hlacks
      simp [Node.lacksName, hm, hok] at hlacks

theorem visitUp_names (node tree : Node) (metadata after : Metadata)
    (h : visitUp node metadata = .ok (tree, after)) :
    tree = node ∧
      if node.isDefinition then
        (enteredNames node).length < metadata.scope.names.length ∧
          after.scope.names = Scope.keptNames metadata.scope.names (enteredNames node).length
      else after.scope.names = metadata.scope.names := by
  unfold visitUp at h
  split at h
  · rename_i segments line hm
    have hd : node.isDefinition = true := by simp [Node.isDefinition, hm]
    have hentered : (enteredNames node).length = segments.length := by
      simp [enteredNames, Enclosure.names, hm]
    obtain ⟨next, hnext, hreturn⟩ := ok_of_bind _ _ _ h
    cases hreturn
    obtain ⟨hlt, hkept⟩ := Scope.leave_names _ _ _ _ (withScope_ok _ _ _ hnext)
    rw [if_pos hd, hentered]
    exact ⟨rfl, by omega, hkept⟩
  · rename_i hm
    split at h
    · rename_i function hf
      have hname : node.functionName? = some function.name := by simp [Node.functionName?, hf]
      have hd : node.isDefinition = true := by simp [Node.isDefinition, hname]
      have hentered : (enteredNames node).length = 1 := by
        simp [enteredNames, Enclosure.names, hm, hname]
      obtain ⟨next, hnext, hreturn⟩ := ok_of_bind _ _ _ h
      cases hreturn
      obtain ⟨hlt, hkept⟩ := Scope.leave_names _ _ _ _ (withScope_ok _ _ _ hnext)
      rw [if_pos hd, hentered]
      exact ⟨rfl, by omega, hkept⟩
    · rename_i hf
      have hd : node.isDefinition = false := by simp [Node.isDefinition, hm, Node.functionName?, hf]
      cases h
      rw [hd]
      exact ⟨rfl, rfl⟩

/-! ### Walks that do not fail -/

/-- No place of a tree needs a missing name, down to a depth; where the tree stands does not
matter. -/
def Named (limit : Nat) (node : Node) : Prop :=
  ∀ path scopes, ∀ place ∈ Place.upTo Node.normalizeDefinition limit
    ⟨node.normalizeDefinition, path, scopes⟩, place.node.lacksName = false

/-- What a visit that does not fail has done: it returns the settled node, and unless it has lost
all names it has met no missing one and keeps those that were there. -/
def SettlesNames (limit : Nat) (visit : Node.Visit ScopeError Metadata) (node : Node) : Prop :=
  ∀ metadata tree after, visit node metadata = .ok (tree, after) → tree = node.settled ∧
    (after.scope.names = [] ∨ after.scope.names = metadata.scope.names ∧ Named limit node)

theorem visitAll_settles (limit : Nat) (visit : Node.Visit ScopeError Metadata) (nodes : List Node)
    (hvisit : ∀ node ∈ nodes, SettlesNames limit visit node) (metadata after : Metadata)
    (trees : List Node) (h : Node.visitAll visit nodes metadata = .ok (trees, after)) :
    trees = nodes.map Node.settled ∧
      (after.scope.names = [] ∨
        after.scope.names = metadata.scope.names ∧ ∀ node ∈ nodes, Named limit node) := by
  induction nodes generalizing metadata after trees with
  | nil =>
    cases h
    exact ⟨rfl, .inr ⟨rfl, fun node hn => by cases hn⟩⟩
  | cons node nodes ih =>
    obtain ⟨⟨tree, middle⟩, hfirst, h⟩ := ok_of_bind _ _ _ h
    obtain ⟨⟨others, last⟩, hrest, h⟩ := ok_of_bind _ _ _ h
    cases h
    obtain ⟨rfl, hmiddle⟩ := hvisit node List.mem_cons_self metadata tree middle hfirst
    obtain ⟨rfl, hlast⟩ :=
      ih (fun other ho => hvisit other (List.mem_cons_of_mem _ ho)) middle after others hrest
    refine ⟨rfl, ?_⟩
    rcases hlast with hlast | ⟨hlast, hnamed⟩
    · exact .inl hlast
    · rcases hmiddle with hmiddle | ⟨hmiddle, hself⟩
      · exact .inl (hlast.trans hmiddle)
      · refine .inr ⟨hlast.trans hmiddle, ?_⟩
        intro other ho
        rcases List.mem_cons.mp ho with rfl | ho
        · exact hself
        · exact hnamed other ho

theorem enteredNames_refined (node : Node) : enteredNames node.refined = enteredNames node := by
  simp only [enteredNames, Enclosure.names, Node.moduleDefinition?_refined,
    Node.functionName?_refined]

theorem named_succ (limit : Nat) (node : Node)
    (hself : node.normalizeDefinition.lacksName = false)
    (hchildren : ∀ child ∈ node.normalizeDefinition.children, Named limit child) :
    Named (limit + 1) node := by
  intro path scopes place hp
  rcases List.mem_cons.mp hp with rfl | hp
  · exact hself
  · obtain ⟨child, hc, hp⟩ := List.mem_flatMap.mp hp
    obtain ⟨j, other, _, hm, rfl⟩ := Place.mem_sideBySide _ _ _ _ _ child hc
    exact hchildren other hm _ _ place hp

theorem keptNames_entered (entered outer : List String) (hne : entered ≠ []) :
    Scope.keptNames (entered ++ outer) entered.length = outer := by
  have hpos : (0 : Int) < (entered.length : Int) := by
    have hl := List.length_pos_iff.mpr hne
    omega
  rw [Scope.keptNames, if_pos hpos]
  simp

/-- Closing a scope that has entered no name drops all names. -/
theorem keptNames_zero (names : List String) : Scope.keptNames names 0 = [] := by
  rw [Scope.keptNames, if_neg (by omega)]
  simp

theorem enteredNames_of_not_definition (node : Node) (h : node.isDefinition = false) :
    enteredNames node = [] ∧ node.moduleDefinition? = none := by
  obtain ⟨hm, hf⟩ := Bool.or_eq_false_iff.mp h
  have hm' : node.moduleDefinition? = none := by simpa using hm
  have hf' : node.functionName? = none := by simpa using hf
  exact ⟨by simp [enteredNames, Enclosure.names, hm', hf'], hm'⟩

/-- How the names behind a node follow from those behind its children. -/
theorem names_behind_node (limit : Nat) (node : Node) (outer last after : List String)
    (hlacks : node.normalizeDefinition.lacksName = true →
      ∃ line, node.normalizeDefinition.moduleDefinition? = some ([], line))
    (hlast : last = [] ∨ last = enteredNames node.normalizeDefinition ++ outer ∧
      ∀ child ∈ node.normalizeDefinition.children, Named limit child)
    (hafter : if node.normalizeDefinition.isDefinition then
        (enteredNames node.normalizeDefinition).length < last.length ∧
          after = Scope.keptNames last (enteredNames node.normalizeDefinition).length
      else after = last) :
    after = [] ∨ after = outer ∧ Named (limit + 1) node := by
  have hself : (∀ line, node.normalizeDefinition.moduleDefinition? ≠ some ([], line)) →
      node.normalizeDefinition.lacksName = false := by
    intro hnot
    cases hl : node.normalizeDefinition.lacksName with
    | false => rfl
    | true =>
      obtain ⟨line, hm⟩ := hlacks hl
      exact absurd hm (hnot line)
  cases hd : node.normalizeDefinition.isDefinition with
  | true =>
    rw [if_pos hd] at hafter
    obtain ⟨hlt, hkept⟩ := hafter
    rcases hlast with rfl | ⟨rfl, hnamed⟩
    · simp at hlt
    · by_cases he : enteredNames node.normalizeDefinition = []
      · -- the scope has entered no name, so closing it drops all of them
        rw [he] at hkept
        exact .inl (hkept.trans (keptNames_zero _))
      · refine .inr ⟨hkept.trans (keptNames_entered _ _ he), named_succ limit node ?_ hnamed⟩
        refine hself fun line hm => he ?_
        simp [enteredNames, Enclosure.names, hm]
  | false =>
    obtain ⟨hentered, hm⟩ := enteredNames_of_not_definition _ hd
    rw [hd] at hafter
    rw [hentered] at hlast
    rcases hlast with hlast | ⟨hlast, hnamed⟩
    · exact .inl (hafter.trans hlast)
    · refine .inr ⟨hafter.trans hlast, named_succ limit node (hself fun line he => ?_) hnamed⟩
      rw [hm] at he
      cases he

theorem visitDown_ok (node found : Node) (metadata next : Metadata)
    (h : visitDown node metadata = .ok (found, next)) :
    found = node.normalizeDefinition ∧ metadata.arrive node.normalizeDefinition = .ok next := by
  rw [visitDown_eq] at h
  cases harrive : metadata.arrive node.normalizeDefinition with
  | error e =>
    rw [harrive] at h
    cases h
  | ok inside =>
    rw [harrive] at h
    cases h
    exact ⟨rfl, rfl⟩

theorem visitChildren_ok (visit : Node.Visit ScopeError Metadata) (node rebuilt : Node)
    (metadata next : Metadata) (h : Node.visitChildren visit node metadata = .ok (rebuilt, next)) :
    ∃ trees, Node.visitAll visit node.children metadata = .ok (trees, next) ∧
      rebuilt = node.withChildren trees := by
  rw [Node.visitChildren_eq] at h
  cases hall : Node.visitAll visit node.children metadata with
  | error e =>
    rw [hall] at h
    cases h
  | ok found =>
    rw [hall] at h
    cases h
    exact ⟨_, rfl, rfl⟩

/-- A walk over a tree that does not fail returns the settled tree, and has lost all names if it
has met a missing one. -/
theorem walk_settles (limit : Nat) (node : Node) (hdepth : node.depth ≤ limit) :
    SettlesNames limit (Node.walk visitDown visitUp .tooDeep limit) node := by
  induction limit generalizing node with
  | zero =>
    have hpos := node.one_le_depth
    omega
  | succ limit ih =>
    intro metadata tree after h
    obtain ⟨⟨found, inside⟩, hdown, h⟩ := ok_of_bind _ _ _ h
    obtain ⟨⟨rebuilt, behind⟩, hchildren, hup⟩ := ok_of_bind _ _ _ h
    obtain ⟨rfl, harrive⟩ := visitDown_ok node found metadata inside hdown
    obtain ⟨hinside, hlacks⟩ := arrive_names _ _ _ harrive
    obtain ⟨trees, hall, rfl⟩ := visitChildren_ok _ _ _ _ _ hchildren
    have hvisit : ∀ child ∈ node.normalizeDefinition.children,
        SettlesNames limit (Node.walk visitDown visitUp .tooDeep limit) child := by
      intro child hc
      have hlt := Node.depth_lt_of_mem_children_normalizeDefinition node child hc
      exact ih child (by omega)
    obtain ⟨rfl, hlast⟩ := visitAll_settles limit _ _ hvisit inside behind trees hall
    obtain ⟨rfl, hafter⟩ := visitUp_names _ _ _ _ hup
    have hrefined : node.normalizeDefinition.withChildren
        (node.normalizeDefinition.children.map Node.settled) = node.normalizeDefinition.refined :=
      rfl
    rw [hrefined, Node.isDefinition_refined, enteredNames_refined] at hafter
    rw [hinside] at hlast
    exact ⟨(Node.settled_eq node).symm, names_behind_node limit node _ _ _ hlacks hlast hafter⟩

/-- The analysis of a tree returns exactly if no place of the tree needs a missing name. -/
theorem build_isOk_iff (node : Node) :
    (build node).isOk = true ↔ ∀ place ∈ node.arrivals, place.node.lacksName = false := by
  constructor
  · intro hok
    cases hbuild : build node with
    | error e =>
      rw [hbuild] at hok
      cases hok
    | ok result =>
      obtain ⟨⟨tree, metadata⟩, hwalk, h⟩ := ok_of_bind _ _ _ hbuild
      dsimp only at h
      split at h
      · rename_i hbalanced
        obtain ⟨_, hnames⟩ := walk_settles node.depth node (Nat.le_refl _) _ _ _ hwalk
        rcases hnames with hnames | ⟨_, hnamed⟩
        · simp [Scope.isBalanced, hnames] at hbalanced
        · exact hnamed [] []
      · cases h
  · intro hnamed
    rw [build_eq node hnamed]
    rfl

end Metadata

end LineScope
