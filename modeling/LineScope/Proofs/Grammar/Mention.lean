import LineScope.Grammar.Chain
import LineScope.Proofs.Grammar.Site
import LineScope.Proofs.Node.Children

/-!
# Nodes that mention markers

A node mentions a line if the marker of the line occurs in it, or a text that holds the name of the
marker.  `Covers` compares the nodes that a rule has read with the node it makes of them: what the
parts mention, the whole mentions, and it has no marker of its own.
-/

namespace LineScope

open LineScope.Text

/-- The text that a literal denotes. -/
def Literal.text? : Literal → Option String
  | .atom name => some name
  | .string value => some value
  | .charlist value => some value
  | _ => none

/-- The digits in the name of a marker are those of its line. -/
theorem markerDigits?_markerName (line : Nat) :
    markerDigits? (markerName line) = some (Nat.toDigits 10 line) := by
  have hname : (markerName line).toList =
      markerStart.toList ++ (Nat.toDigits 10 line ++ ['_', '_']) := by
    rw [markerName, show toString (line : Int) = toString line from rfl]
    simp
  have htake : (Nat.toDigits 10 line ++ ['_', '_']).takeWhile isDecimal = Nat.toDigits 10 line := by
    rw [List.takeWhile_append_of_pos fun c hc => isDecimal_of_isDigit c
      (Nat.isDigit_of_mem_toDigits (by omega) (by omega) hc)]
    simp [List.takeWhile, show isDecimal '_' = false from rfl]
  have hdrop : (markerName line).toList.drop markerStart.length =
      Nat.toDigits 10 line ++ ['_', '_'] := by
    rw [hname, ← String.length_toList, List.drop_left]
  have hstart : markerStart.toList.isPrefixOf (markerName line).toList = true := by
    rw [List.isPrefixOf_iff_prefix, hname]
    exact List.prefix_append _ _
  unfold markerDigits?
  dsimp only
  rw [if_pos hstart, hdrop, htake, List.drop_left]
  simp [Nat.toDigits_ne_nil]

namespace Node

/-! ### Mentions -/

/-- The marker of a line. -/
def marker (line : Nat) : Node := .call (markerName line) (some []) (some line)

/-- A text that holds the name of the marker of a line. -/
def Holds (line : Nat) (node : Node) : Prop :=
  ∃ value text, node = .literal value ∧ value.text? = some text ∧
    (markerName line).toList <:+: text.toList

/-- The marker of a line, or a text that holds its name, occurs in a node. -/
def Mentions (line : Nat) (node : Node) : Prop :=
  ∃ part ∈ node.occurrences, part = marker line ∨ part.Holds line

theorem mem_occurrences_iff (node part : Node) :
    part ∈ node.occurrences ↔ part = node ∨ ∃ child ∈ node.children, part ∈ child.occurrences := by
  rw [occurrences_eq, List.mem_cons, List.mem_flatMap]

theorem mentions_iff (line : Nat) (node : Node) :
    node.Mentions line ↔ (node = marker line ∨ node.Holds line) ∨
      ∃ child ∈ node.children, child.Mentions line := by
  constructor
  · rintro ⟨part, hpart, hnames⟩
    rcases (mem_occurrences_iff node part).mp hpart with rfl | ⟨child, hchild, hpart⟩
    · exact .inl hnames
    · exact .inr ⟨child, hchild, part, hpart, hnames⟩
  · rintro (hnames | ⟨child, hchild, part, hpart, hnames⟩)
    · exact ⟨node, self_mem_occurrences node, hnames⟩
    · exact ⟨part, mem_occurrences_of_mem_children node child part hchild hpart, hnames⟩

theorem Mentions.of_child {line : Nat} {node child : Node} (hc : child ∈ node.children)
    (h : child.Mentions line) : node.Mentions line :=
  (mentions_iff line node).mpr (.inr ⟨child, hc, h⟩)

theorem mentions_text (line : Nat) (value : Literal) (text : String) (h : value.text? = some text)
    (hheld : (markerName line).toList <:+: text.toList) : (literal value).Mentions line :=
  (mentions_iff line _).mpr (.inl (.inr ⟨value, text, rfl, h, hheld⟩))

end Node

namespace Grammar

open Node

/-! ### Markers at sites -/

/-- A name on a line that is no marker, unless it is the marker of a site on its line. -/
def SiteName (source : List Char) (name : String) (line : Option Int) : Prop :=
  (markerDigits? name).isSome → ∃ site : Site source, name = markerName site.line ∧
    line = some (site.line : Int)

/-- A node that is no marker, unless it is the marker of a site. -/
def OwnMarker (source : List Char) : Node → Prop
  | .call name args line => args.getD [] = [] → SiteName source name line
  | _ => True

/-- A node in which only markers of sites occur. -/
def Genuine (source : List Char) (node : Node) : Prop :=
  ∀ part ∈ node.occurrences, OwnMarker source part

theorem genuine_iff (source : List Char) (node : Node) :
    Genuine source node ↔ OwnMarker source node ∧ ∀ child ∈ node.children, Genuine source child := by
  constructor
  · intro h
    refine ⟨h node (self_mem_occurrences node), fun child hc part hp => ?_⟩
    exact h part (mem_occurrences_of_mem_children node child part hc hp)
  · rintro ⟨hown, hchildren⟩ part hp
    rcases (mem_occurrences_iff node part).mp hp with rfl | ⟨child, hc, hp⟩
    · exact hown
    · exact hchildren child hc part hp

/-! ### Covering -/

/-- What some nodes mention others mention too, and these have only markers of sites if those do. -/
structure Covers (source : List Char) (parts wholes : List Node) : Prop where
  genuine : (∀ part ∈ parts, Genuine source part) → ∀ whole ∈ wholes, Genuine source whole
  mentions : ∀ line, (∃ part ∈ parts, part.Mentions line) → ∃ whole ∈ wholes, whole.Mentions line

section Covers

variable {source : List Char}

theorem Covers.refl (nodes : List Node) : Covers source nodes nodes :=
  ⟨fun h => h, fun _ h => h⟩

theorem Covers.trans {first second third : List Node} (h : Covers source first second)
    (h' : Covers source second third) : Covers source first third :=
  ⟨fun hg => h'.genuine (h.genuine hg), fun line hm => h'.mentions line (h.mentions line hm)⟩

theorem Covers.append {first second first' second' : List Node} (h : Covers source first second)
    (h' : Covers source first' second') : Covers source (first ++ first') (second ++ second') := by
  constructor
  · intro hg whole hw
    rcases List.mem_append.mp hw with hw | hw
    · exact h.genuine (fun part hp => hg part (List.mem_append_left _ hp)) whole hw
    · exact h'.genuine (fun part hp => hg part (List.mem_append_right _ hp)) whole hw
  · rintro line ⟨part, hp, hm⟩
    rcases List.mem_append.mp hp with hp | hp
    · obtain ⟨whole, hw, hm⟩ := h.mentions line ⟨part, hp, hm⟩
      exact ⟨whole, List.mem_append_left _ hw, hm⟩
    · obtain ⟨whole, hw, hm⟩ := h'.mentions line ⟨part, hp, hm⟩
      exact ⟨whole, List.mem_append_right _ hw, hm⟩

theorem Covers.append_left (front : List Node) {parts wholes : List Node}
    (h : Covers source parts wholes) : Covers source (front ++ parts) (front ++ wholes) :=
  (Covers.refl front).append h

theorem covers_flatMap {α : Type} (items : List α) (parts : α → List Node) (whole : α → Node)
    (h : ∀ item ∈ items, Covers source (parts item) [whole item]) :
    Covers source (items.flatMap parts) (items.map whole) := by
  induction items with
  | nil => exact Covers.refl []
  | cons item items ih =>
    have hrest := ih fun other ho => h other (List.mem_cons_of_mem _ ho)
    exact (h item List.mem_cons_self).append hrest

/-! ### Wholes -/

/-- A node covers what stands below it. -/
theorem covers_children (node : Node) (h : OwnMarker source node) :
    Covers source node.children [node] := by
  constructor
  · intro hg whole hw
    rw [List.mem_singleton.mp hw, genuine_iff]
    exact ⟨h, hg⟩
  · rintro line ⟨child, hc, hm⟩
    exact ⟨node, List.mem_singleton_self _, hm.of_child hc⟩

theorem covers_call (name : String) (args : List Node) (line : Option Int)
    (h : markerDigits? name = none ∨ args ≠ []) : Covers source args [.call name (some args) line] := by
  refine covers_children (.call name (some args) line) fun hargs hsome => ?_
  rw [h.resolve_right fun hne => hne hargs] at hsome
  cases hsome

theorem covers_apply (head : Node) (args : List Node) (line : Option Int) :
    Covers source (head :: args) [.apply head (some args) line] :=
  covers_children (.apply head (some args) line) trivial

theorem covers_pair (left right : Node) : Covers source [left, right] [.pair left right] :=
  covers_children (.pair left right) trivial

theorem covers_list (items : List Node) : Covers source items [.list items] :=
  covers_children (.list items) trivial

theorem covers_literal (value : Literal) : Covers source [] [.literal value] :=
  covers_children (.literal value) trivial

theorem covers_ident (name : String) (line : Option Int) :
    Covers source [] [.ident name line none] :=
  covers_children (.ident name line none) trivial

/-- What a node mentions that is neither a marker nor a literal stands below it. -/
theorem covers_node_children (node : Node) (hmarker : ∀ line, node ≠ marker line)
    (hliteral : ∀ value, node ≠ .literal value) : Covers source [node] node.children := by
  constructor
  · intro hg child hc
    exact ((genuine_iff source node).mp (hg node (List.mem_singleton_self _))).2 child hc
  · rintro line ⟨part, hp, hm⟩
    rw [List.mem_singleton.mp hp] at hm
    rcases (mentions_iff line node).mp hm with (he | ⟨value, _, he, _⟩) | hchild
    · exact absurd he (hmarker line)
    · exact absurd he (hliteral value)
    · exact hchild

theorem covers_ident_nil (name : String) (line : Option Int) :
    Covers source [.ident name line none] [] :=
  covers_node_children (.ident name line none) (fun _ he => by cases he) fun _ he => by cases he

theorem covers_apply_parts (head : Node) (args : List Node) (line : Option Int) :
    Covers source [.apply head (some args) line] (head :: args) :=
  covers_node_children (.apply head (some args) line) (fun _ he => by cases he)
    fun _ he => by cases he

theorem covers_call_args (name : String) (args : List Node) (line : Option Int)
    (h : markerDigits? name = none) : Covers source [.call name (some args) line] args := by
  refine covers_node_children (.call name (some args) line) (fun other he => ?_)
    fun _ he => by cases he
  injection he with hname
  rw [hname, markerDigits?_markerName] at h
  cases h

theorem covers_atoms (names : List String) : Covers source [] (names.map Node.atom) := by
  have hnil : names.flatMap (fun _ => ([] : List Node)) = [] := by simp
  rw [← hnil]
  exact covers_flatMap names _ _ fun name _ => covers_literal (.atom name)

theorem covers_aliases (segments : List String) : Covers source [] [.aliases segments] :=
  (covers_atoms segments).trans (covers_call _ _ _ (.inl (by decide)))

theorem covers_block (nodes : List Node) : Covers source nodes [.block nodes] := by
  unfold Node.block
  split
  · exact Covers.refl _
  · exact covers_call _ _ _ (.inl (by decide))

theorem covers_join (joint : Joint) (left right : Node) :
    Covers source [left, right] [joint.join left right] := by
  cases joint with
  | operator op line => exact covers_call _ _ _ (.inr (List.cons_ne_nil _ _))
  | notIn notLine inLine =>
    exact (covers_call "in" _ (some inLine) (.inr (List.cons_ne_nil _ _))).trans
      (covers_call "not" _ (some notLine) (.inr (List.cons_ne_nil _ _)))

end Covers

/-! ### Chains -/

namespace Chain

variable {source : List Char}

/-- The nodes of the operands. -/
def nodes (chain : Chain) : List Node :=
  chain.first.term.node :: chain.rest.map fun step => step.2.term.node

/-- The last operand. -/
def last (chain : Chain) : Operand := (chain.rest.getLast?.map (·.2)).getD chain.first

theorem nodes_snoc (chain : Chain) (joint : Joint) (operand : Operand) :
    (chain.snoc joint operand).nodes = chain.nodes ++ [operand.term.node] := by
  simp [nodes, snoc]

theorem last_snoc (chain : Chain) (joint : Joint) (operand : Operand) :
    (chain.snoc joint operand).last = operand := by
  simp [last, snoc]

/-- A match is a pattern, a joint and one more operand. -/
theorem matching?_inv (chain : Chain) (pattern : Node) (joint : Joint) (form : Form)
    (h : chain.matching? = some (pattern, joint, form)) :
    ∃ (init : Chain) (operand : Operand), chain = init.snoc joint operand ∧ pattern = init.node ∧
      form = operand.term.form := by
  obtain ⟨first, rest⟩ := chain
  unfold matching? at h
  split at h
  · cases h
  · rename_i last operand hlast
    dsimp only at h hlast
    split at h
    · cases h
      refine ⟨⟨first, rest.dropLast⟩, operand, ?_, rfl, rfl⟩
      rw [snoc, List.dropLast_append_getLast? _ hlast]
    · cases h

theorem covers_captured (lines : List Nat) (node : Node) :
    Covers source [node] [captured lines node] := by
  induction lines with
  | nil => exact Covers.refl _
  | cons line lines ih => exact ih.trans (covers_call _ _ _ (.inr (List.cons_ne_nil _ _)))

theorem covers_joinRight (first : Node) (rest : List (Joint × Node)) :
    Covers source (first :: rest.map (·.2)) [joinRight first rest] := by
  induction rest generalizing first with
  | nil => exact Covers.refl _
  | cons step rest ih =>
    exact ((Covers.refl [first]).append (ih step.2)).trans (covers_join step.1 _ _)

theorem covers_joinLeft (first : Node) (rest : List (Joint × Node)) :
    Covers source (first :: rest.map (·.2)) [joinLeft first rest] := by
  induction rest generalizing first with
  | nil => exact Covers.refl _
  | cons step rest ih =>
    exact ((covers_join step.1 first step.2).append (Covers.refl _)).trans (ih _)

theorem covers_joinFrom (side : Side) (first : Node) (rest : List (Joint × Node)) :
    Covers source (first :: rest.map (·.2)) [joinFrom side first rest] := by
  cases side with
  | left => exact covers_joinLeft first rest
  | right => exact covers_joinRight first rest

/-- Cutting loses no operand. -/
theorem nodes_cut (p : Joint → Bool) (operand : Operand) (rest : List (Joint × Operand)) :
    (cut p operand rest).1.nodes ++ (cut p operand rest).2.flatMap (fun step => step.2.nodes) =
      (Chain.mk operand rest).nodes := by
  induction rest generalizing operand with
  | nil => rfl
  | cons step rest ih =>
    obtain ⟨joint, next⟩ := step
    have hnext := ih next
    simp only [cut]
    split
    · simpa [nodes, single] using hnext
    · simpa [nodes] using hnext

/-- The joints that stay in the pieces are not those at which a chain is cut. -/
theorem joint_of_mem_cut (p : Joint → Bool) (operand : Operand) (rest : List (Joint × Operand))
    (piece : Chain) (hpiece : piece = (cut p operand rest).1 ∨
      ∃ joint, (joint, piece) ∈ (cut p operand rest).2) :
    ∀ step ∈ piece.rest, p step.1 = false ∧ ∃ other ∈ rest, other.1 = step.1 := by
  induction rest generalizing operand piece with
  | nil =>
    rcases hpiece with rfl | ⟨joint, hmem⟩
    · intro step hstep
      cases hstep
    · cases hmem
  | cons first rest ih =>
    obtain ⟨joint, next⟩ := first
    have hlater : ∀ piece, (piece = (cut p next rest).1 ∨
        ∃ joint, (joint, piece) ∈ (cut p next rest).2) → ∀ step ∈ piece.rest,
          p step.1 = false ∧ ∃ other ∈ (joint, next) :: rest, other.1 = step.1 := by
      intro piece hp step hstep
      obtain ⟨hfalse, other, hother, he⟩ := ih next piece hp step hstep
      exact ⟨hfalse, other, List.mem_cons_of_mem _ hother, he⟩
    simp only [cut] at hpiece
    split at hpiece
    · rcases hpiece with rfl | ⟨joint', hmem⟩
      · intro step hstep
        cases hstep
      · rcases List.mem_cons.mp hmem with he | hmem
        · obtain ⟨-, rfl⟩ := Prod.mk.inj he
          exact hlater _ (.inl rfl)
        · exact hlater _ (.inr ⟨joint', hmem⟩)
    · rename_i hjoint
      rcases hpiece with rfl | ⟨joint', hmem⟩
      · intro step hstep
        rcases List.mem_cons.mp hstep with rfl | hstep
        · exact ⟨by simpa using hjoint, _, List.mem_cons_self, rfl⟩
        · exact hlater _ (.inl rfl) step hstep
      · exact hlater _ (.inr ⟨joint', hmem⟩)

/-- A tower with a floor for each joint keeps every operand. -/
theorem covers_resolve (floors : List Floor) (chain : Chain)
    (h : ∀ step ∈ chain.rest, Floor.joints step.1.level ∈ floors) :
    Covers source chain.nodes [resolve floors chain] := by
  induction floors generalizing chain with
  | nil =>
    have hrest : chain.rest = [] := List.eq_nil_iff_forall_not_mem.mpr fun step hs => by
      cases h step hs
    have hnodes : chain.nodes = [chain.first.term.node] := by simp [nodes, hrest]
    rw [hnodes, resolve]
    exact Covers.refl _
  | cons floor floors ih =>
    cases floor with
    | captures =>
      refine (ih chain fun step hs => ?_).trans (covers_captured _ _)
      exact (List.mem_cons.mp (h step hs)).resolve_left (by simp)
    | joints level =>
      have hpieces : ∀ piece, (piece = (cut (fun joint => joint.level == level) chain.first
          chain.rest).1 ∨ ∃ joint, (joint, piece) ∈ (cut (fun joint => joint.level == level)
            chain.first chain.rest).2) → Covers source piece.nodes [resolve floors piece] := by
        intro piece hp
        refine ih piece fun step hs => ?_
        obtain ⟨hlevel, other, hother, he⟩ := joint_of_mem_cut _ _ _ piece hp step hs
        have hfloor := h other hother
        rw [he] at hfloor
        refine (List.mem_cons.mp hfloor).resolve_left fun hsame => ?_
        injection hsame with hsame
        rw [hsame] at hlevel
        simp at hlevel
      have hcut := nodes_cut (fun joint => joint.level == level) chain.first chain.rest
      rw [resolve, show chain.nodes = (Chain.mk chain.first chain.rest).nodes from rfl, ← hcut]
      generalize cut (fun joint => joint.level == level) chain.first chain.rest = parts at *
      obtain ⟨piece, pieces⟩ := parts
      have hmap : Covers source (resolve floors piece :: (pieces.map fun step =>
          (step.1, resolve floors step.2)).map (·.2)) _ :=
        covers_joinFrom level.side (resolve floors piece) _
      rw [List.map_map] at hmap
      refine Covers.trans ((hpieces piece (.inl rfl)).append ?_) hmap
      exact covers_flatMap pieces (fun step => step.2.nodes) (fun step => resolve floors step.2)
        fun step hs => hpieces step.2 (.inr ⟨step.1, hs⟩)

/-- The tree of a chain keeps every operand. -/
theorem covers_node (chain : Chain) : Covers source chain.nodes [chain.node] := by
  have htower : ∀ level : Level, Floor.joints level ∈ tower := by
    intro level
    cases level <;> decide
  unfold node
  split
  · rename_i hrest
    have hnodes : chain.nodes = [chain.first.term.node] := by simp [nodes, hrest]
    rw [hnodes]
    exact covers_captured _ _
  · exact covers_resolve tower chain fun step _ => htower step.1.level

end Chain

end Grammar

end LineScope
