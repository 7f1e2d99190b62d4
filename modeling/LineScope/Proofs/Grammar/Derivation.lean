import LineScope.Grammar.Expression
import LineScope.Proofs.Grammar.Rule

/-!
# What every derivation keeps

An invariant of derivations speaks about the cursors, about the tokens and about the nodes that are
made of them.  It is enough to look at one token at a time and at one node above others: then every
rule of the grammar keeps the invariant.  Cursors are told apart by the number of blocks that are
open there, which only the words `do`, `fn` and `end` change.
-/

namespace LineScope.Grammar

open Rule

/-! ### Terminals -/

/-- The fixed texts of the grammar. -/
def fixedTexts : List String :=
  [",", ";", ")", "]", "\x7b", "\x7d", "<<", ">>", "=>", "->", "%\x7b", "@"]

/-- The keywords that neither open nor close a block and are no operators. -/
def plainWords : List String := ["not", "in", "true", "false", "nil"]

/-- The terminals of the grammar besides the words that open and close blocks. -/
inductive Ordinary : Terminal → Prop where
  | fixed (text : String) (h : text ∈ fixedTexts) : Ordinary (.fixed text)
  | keyword (word : String) (h : word ∈ plainWords) : Ordinary (.keyword word)
  | operator (op : Operator) (h : op ∈ Operator.all) : Ordinary op.terminal
  | blockLabel : Ordinary .blockLabel
  | name : Ordinary .name
  | aliasSegment : Ordinary .aliasSegment
  | keywordKey : Ordinary .keywordKey
  | atom : Ordinary .atom
  | integer : Ordinary .integer
  | float : Ordinary .float
  | char : Ordinary .char
  | quotedText (mark : Char) (h : mark = '"' ∨ mark = '\'') : Ordinary (.quotedText mark)
  | heredoc (mark : Char) (h : mark = '"' ∨ mark = '\'') : Ordinary (.heredoc mark)
  | sigil : Ordinary .sigil
  | captureArg : Ordinary .captureArg
  | captureSign : Ordinary .captureSign
  | sign : Ordinary .sign
  | callParen : Ordinary .callParen
  | groupParen : Ordinary .groupParen
  | accessBracket : Ordinary .accessBracket
  | listBracket : Ordinary .listBracket
  | dot : Ordinary .dot
  | percent : Ordinary .percent
  | lineEnds : Ordinary .lineEnds

/-! ### Invariants -/

/-- What an invariant says: of a cursor, by the number of open blocks; of a token, by its terminal;
of the line of a node; of the name of a call on a line; and of a node. -/
structure Invariant where
  cursor : Nat → Cursor → Prop
  token : Terminal → Token → Prop
  line : Nat → Prop
  names : String → Nat → Prop
  node : Node → Prop

/-- The names of calls that the grammar itself puts into the tree. -/
def ownNames : List String :=
  ["&", "<<>>", "@", "\x7b\x7d", "|", "%", "%\x7b\x7d", "fn", ".", "->", "not", "in"]

namespace Invariant

/-- An invariant of the nodes that are made of others. -/
structure Builds (I : Invariant) : Prop where
  ownName : ∀ name ∈ ownNames, ∀ line, I.line line → I.names name line
  operator : ∀ op ∈ Operator.all, ∀ line, I.line line → I.names op.text line
  sigil : ∀ letter line, I.line line → I.names ("sigil_" ++ String.singleton letter) line
  call : ∀ name args line, I.names name line → (∀ arg ∈ args, I.node arg) →
    I.node (.call name (some args) (some line))
  group : ∀ name args, name = blockHead ∨ name = aliasesHead → (∀ arg ∈ args, I.node arg) →
    I.node (.call name (some args) none)
  apply : ∀ head args line other, I.node (.call "." (some head) (some other)) → I.line line →
    (∀ arg ∈ args, I.node arg) →
      I.node (.apply (.call "." (some head) (some other)) (some args) (some line))
  pair : ∀ left right, I.node left → I.node right → I.node (.pair left right)
  list : ∀ items, (∀ item ∈ items, I.node item) → I.node (.list items)
  literal : ∀ value, I.node (.literal value)

/-- An invariant that tokens keep, and the nodes that are made of them. -/
structure Lawful (I : Invariant) : Prop extends I.Builds where
  ordinary : ∀ n terminal, Ordinary terminal →
    Ensures (I.cursor n) (I.token terminal) (Rule.token terminal)
  opening : ∀ n word, word = "do" ∨ word = "fn" →
    Leads (I.cursor n) (fun found c => I.cursor (n + 1) c ∧ I.line found.line)
      (Rule.token (.keyword word))
  closing : ∀ n, Leads (I.cursor (n + 1)) (fun _ c => I.cursor n c) (Rule.token (.keyword "end"))
  report : ∀ n terminal found kind error, I.token terminal found →
    Keeps (I.cursor n) (Rule.report ⟨kind, error, found.line⟩)
  cursorLine : ∀ n c, I.cursor n c → I.line c.line
  tokenLine : ∀ terminal found, I.token terminal found → I.line found.line
  name : ∀ found, I.token .name found → I.names found.text found.line
  ident : ∀ found, I.token .name found → I.node (identNode found)
  sign : ∀ found, I.token .sign found ∨ I.token (.keyword "not") found →
    I.names found.text found.line

/-! ### What rules return, where an invariant holds of it -/

variable (I : Invariant)

def goodCallee : Callee → Prop
  | .plain name line => I.names name line
  | .remote target _ line => I.node target ∧ I.line line

def goodForm : Form → Prop
  | .closed => True
  | .callee callee => I.goodCallee callee
  | .invoked callee args => I.goodCallee callee ∧ ∀ arg ∈ args, I.node arg
  | .attribute name nameLine signLine => I.names name nameLine ∧ I.line signLine

def goodTerm (term : Term) : Prop := I.node term.node ∧ I.goodForm term.form

def goodOperand (operand : Operand) : Prop :=
  (∀ line ∈ operand.captures, I.line line) ∧ I.goodTerm operand.term

def goodJoint : Joint → Prop
  | .operator op line => op ∈ Operator.all ∧ I.line line
  | .notIn notLine inLine => I.line notLine ∧ I.line inLine

def goodChain (chain : Chain) : Prop :=
  I.goodOperand chain.first ∧ ∀ step ∈ chain.rest, I.goodJoint step.1 ∧ I.goodOperand step.2

def goodNodes (nodes : List Node) : Prop := ∀ node ∈ nodes, I.node node

def goodItems (items : Items) : Prop := I.goodNodes items.nodes ∧ I.goodNodes items.keywords

def goodHead (head : ClauseHead) : Prop := I.goodNodes head.patterns ∧ I.line head.line

def goodClauses (clauses : Clauses) : Prop :=
  I.goodNodes clauses.done ∧ I.goodHead clauses.head ∧ I.goodNodes clauses.body

def goodEntry : Entry → Prop
  | .statement node => I.node node
  | .head head => I.goodHead head

end Invariant

/-! ### Nodes made of nodes -/

namespace Invariant.Builds

variable {I : Invariant} (h : I.Builds)

include h

theorem good_atoms (names : List String) : I.goodNodes (names.map .atom) := by
  intro node hn
  obtain ⟨name, -, rfl⟩ := List.mem_map.mp hn
  exact h.literal _

theorem good_aliases (segments : List String) : I.node (.aliases segments) :=
  h.group _ _ (.inr rfl) (h.good_atoms segments)

theorem good_block (nodes : List Node) (hn : I.goodNodes nodes) : I.node (.block nodes) := by
  unfold Node.block
  split
  · exact hn _ List.mem_cons_self
  · exact h.group _ _ (.inl rfl) hn

theorem good_ownCall (name : String) (args : List Node) (line : Nat) (hname : name ∈ ownNames)
    (hline : I.line line) (hargs : I.goodNodes args) : I.node (.call name (some args) (some line)) :=
  h.call name args line (h.ownName name hname line hline) hargs

omit h in
theorem nodes_nil : I.goodNodes [] := nofun

omit h in
theorem nodes_cons {node : Node} {nodes : List Node} (hnode : I.node node) (hn : I.goodNodes nodes) :
    I.goodNodes (node :: nodes) := by
  intro other ho
  rcases List.mem_cons.mp ho with rfl | ho
  · exact hnode
  · exact hn other ho

omit h in
theorem nodes_append {first second : List Node} (hf : I.goodNodes first) (hs : I.goodNodes second) :
    I.goodNodes (first ++ second) :=
  List.forall_mem_append.mpr ⟨hf, hs⟩

omit h in
theorem nodes_snoc {nodes : List Node} {node : Node} (hn : I.goodNodes nodes) (hnode : I.node node) :
    I.goodNodes (nodes ++ [node]) :=
  nodes_append hn (nodes_cons hnode nodes_nil)

theorem good_invoke (callee : Callee) (args : List Node) (hc : I.goodCallee callee)
    (ha : I.goodNodes args) : I.node (callee.invoke args) := by
  cases callee with
  | plain name line => exact h.call name args line hc ha
  | remote target name line =>
    refine h.apply _ args line line ?_ hc.2 ha
    exact h.good_ownCall "." _ line (by decide) hc.2
      (nodes_cons hc.1 (nodes_cons (h.literal _) nodes_nil))

theorem good_join (joint : Joint) (left right : Node) (hj : I.goodJoint joint) (hl : I.node left)
    (hr : I.node right) : I.node (joint.join left right) := by
  have hargs : I.goodNodes [left, right] := nodes_cons hl (nodes_cons hr nodes_nil)
  cases joint with
  | operator op line => exact h.call _ _ _ (h.operator op hj.1 line hj.2) hargs
  | notIn notLine inLine =>
    refine h.good_ownCall "not" _ _ (by decide) hj.1 (nodes_cons ?_ nodes_nil)
    exact h.good_ownCall "in" _ _ (by decide) hj.2 hargs

theorem good_captured (lines : List Nat) (node : Node) (hlines : ∀ line ∈ lines, I.line line)
    (hnode : I.node node) : I.node (Chain.captured lines node) := by
  induction lines with
  | nil => exact hnode
  | cons line lines ih =>
    refine h.good_ownCall "&" _ _ (by decide) (hlines line List.mem_cons_self)
      (nodes_cons ?_ nodes_nil)
    exact ih fun other ho => hlines other (List.mem_cons_of_mem _ ho)

/-! ### Chains -/

theorem good_joinLeft (first : Node) (rest : List (Joint × Node)) (hf : I.node first)
    (hr : ∀ step ∈ rest, I.goodJoint step.1 ∧ I.node step.2) :
    I.node (Chain.joinLeft first rest) := by
  unfold Chain.joinLeft
  induction rest generalizing first with
  | nil => exact hf
  | cons step rest ih =>
    obtain ⟨hj, hn⟩ := hr step List.mem_cons_self
    exact ih _ (h.good_join _ _ _ hj hf hn) fun other ho => hr other (List.mem_cons_of_mem _ ho)

theorem good_joinRight (first : Node) (rest : List (Joint × Node)) (hf : I.node first)
    (hr : ∀ step ∈ rest, I.goodJoint step.1 ∧ I.node step.2) :
    I.node (Chain.joinRight first rest) := by
  induction rest generalizing first with
  | nil => exact hf
  | cons step rest ih =>
    obtain ⟨hj, hn⟩ := hr step List.mem_cons_self
    exact h.good_join _ _ _ hj hf (ih _ hn fun other ho => hr other (List.mem_cons_of_mem _ ho))

theorem good_joinFrom (side : Side) (first : Node) (rest : List (Joint × Node)) (hf : I.node first)
    (hr : ∀ step ∈ rest, I.goodJoint step.1 ∧ I.node step.2) :
    I.node (Chain.joinFrom side first rest) := by
  cases side with
  | left => exact h.good_joinLeft first rest hf hr
  | right => exact h.good_joinRight first rest hf hr

omit h in
theorem good_cut (p : Joint → Bool) (operand : Operand) (rest : List (Joint × Operand))
    (ho : I.goodOperand operand) (hr : ∀ step ∈ rest, I.goodJoint step.1 ∧ I.goodOperand step.2) :
    I.goodChain (Chain.cut p operand rest).1 ∧
      ∀ step ∈ (Chain.cut p operand rest).2, I.goodJoint step.1 ∧ I.goodChain step.2 := by
  induction rest generalizing operand with
  | nil => exact ⟨⟨ho, nofun⟩, nofun⟩
  | cons step rest ih =>
    obtain ⟨joint, next⟩ := step
    obtain ⟨hj, hn⟩ := hr _ List.mem_cons_self
    obtain ⟨hpiece, hpieces⟩ := ih next hn fun other ho => hr other (List.mem_cons_of_mem _ ho)
    rw [Chain.cut]
    dsimp only
    split
    · refine ⟨⟨ho, nofun⟩, fun other hother => ?_⟩
      rcases List.mem_cons.mp hother with rfl | hother
      · exact ⟨hj, hpiece⟩
      · exact hpieces other hother
    · refine ⟨⟨ho, fun other hother => ?_⟩, hpieces⟩
      rcases List.mem_cons.mp hother with rfl | hother
      · exact ⟨hj, hpiece.1⟩
      · exact hpiece.2 other hother

theorem good_resolve (floors : List Chain.Floor) (chain : Chain) (hc : I.goodChain chain) :
    I.node (Chain.resolve floors chain) := by
  induction floors generalizing chain with
  | nil => exact hc.1.2.1
  | cons floor floors ih =>
    cases floor with
    | captures => exact h.good_captured _ _ hc.1.1 (ih chain hc)
    | joints level =>
      obtain ⟨hpiece, hpieces⟩ := good_cut (fun joint => joint.level == level) _ _ hc.1 hc.2
      refine h.good_joinFrom _ _ _ (ih _ hpiece) fun step hs => ?_
      obtain ⟨piece, hp, rfl⟩ := List.mem_map.mp hs
      exact ⟨(hpieces piece hp).1, ih _ (hpieces piece hp).2⟩

theorem good_chainNode (chain : Chain) (hc : I.goodChain chain) : I.node chain.node := by
  unfold Chain.node
  split
  · exact h.good_captured _ _ hc.1.1 hc.1.2.1
  · exact h.good_resolve _ chain hc

omit h in
theorem good_chainForm (chain : Chain) (hc : I.goodChain chain) : I.goodForm chain.form := by
  unfold Chain.form
  split
  · split
    · exact hc.1.2.2
    · trivial
  · trivial

theorem good_matching (chain : Chain) (pattern : Node) (joint : Joint) (form : Form)
    (hc : I.goodChain chain) (hm : chain.matching? = some (pattern, joint, form)) :
    I.node pattern ∧ I.goodJoint joint ∧ I.goodForm form := by
  unfold Chain.matching? at hm
  split at hm
  · cases hm
  · rename_i found operand hlast
    dsimp only at hm
    split at hm
    · cases hm
      obtain ⟨hj, ho⟩ := hc.2 _ (List.mem_of_getLast? hlast)
      refine ⟨h.good_chainNode _ ⟨hc.1, fun step hs => ?_⟩, hj, ho.2.2⟩
      exact hc.2 step ((List.dropLast_sublist _).subset hs)
    · cases hm

theorem good_grouped (items : Items) (hitems : I.goodItems items) : I.goodNodes items.grouped := by
  unfold Items.grouped
  split
  · exact hitems.1
  · exact nodes_snoc hitems.1 (h.list _ hitems.2)

theorem good_clausesNodes (clauses : Clauses) (hc : I.goodClauses clauses) :
    I.goodNodes clauses.nodes := by
  obtain ⟨hdone, hhead, hbody⟩ := hc
  refine nodes_snoc hdone (h.good_ownCall "->" _ _ (by decide) hhead.2 ?_)
  exact nodes_cons (h.list _ hhead.1) (nodes_cons (h.good_block _ hbody) nodes_nil)

end Invariant.Builds

/-! ### Rules -/

/-- The rules for nested code keep an invariant. -/
structure Nested.Obeys (I : Invariant) (inner : Nested) : Prop where
  chain : ∀ n, Ensures (I.cursor n) I.goodChain inner.chain
  block : ∀ n, Ensures (I.cursor n) I.node inner.block

namespace Invariant.Lawful

variable {I : Invariant} (h : I.Lawful) {n : Nat}

include h

theorem token_line (terminal : Terminal) (ht : Ordinary terminal) :
    Ensures (I.cursor n) (fun found => I.line found.line) (Rule.token terminal) :=
  (h.ordinary n terminal ht).behind fun found _ hc => ⟨hc.1, h.tokenLine terminal found hc.2⟩

theorem keeps_token (terminal : Terminal) (ht : Ordinary terminal) :
    Keeps (I.cursor n) (Rule.token terminal) :=
  (h.ordinary n terminal ht).keeps

theorem reads_fixed (text : String) (ht : text ∈ fixedTexts) :
    Ensures (I.cursor n) (fun found => I.line found.line) (Rule.token (.fixed text)) :=
  h.token_line _ (.fixed text ht)

/-- The end of a block, behind anything that does not depend on the cursor. -/
theorem closes (n : Nat) (Q : Prop) :
    Leads (fun c => I.cursor (n + 1) c ∧ Q) (fun _ c => I.cursor n c ∧ Q)
      (Rule.token (.keyword "end")) :=
  fun c hc way hw => ⟨h.closing n c hc.1 way hw, hc.2⟩

/-! ### Operators and separators -/

theorem reads_lineEnd : Keeps (I.cursor n) lineEnd := keeps_map (h.keeps_token _ .lineEnds)

theorem reads_lineEnd? : Keeps (I.cursor n) lineEnd? := keeps_skip (h.keeps_token _ .lineEnds)

theorem reads_readOperator : Ensures (I.cursor n) I.goodJoint readOperator := by
  intro c hc way hw
  unfold Grammar.readOperator at hw
  split at hw
  · cases hw
  · rename_i op hop
    have hmem : op ∈ Operator.all := List.mem_of_find?_eq_some hop
    exact ensures_map (h.token_line op.terminal (.operator op hmem))
      (fun _ hline => ⟨hmem, hline⟩) c hc way hw

theorem reads_joint : Ensures (I.cursor n) I.goodJoint joint := by
  refine ensures_bind (ensures_choice _ fun rule hr => ?_) fun joint hj =>
    ensures_bind h.reads_lineEnd? fun _ _ => ensures_pure joint hj
  simp only [List.mem_cons, List.not_mem_nil, or_false] at hr
  rcases hr with rfl | rfl | rfl
  · exact h.reads_readOperator
  · exact ensures_bind (h.token_line _ (.keyword "not" (by decide))) fun _ hnot =>
      ensures_map (h.token_line _ (.keyword "in" (by decide))) fun _ hin => ⟨hnot, hin⟩
  · exact ensures_bind (h.keeps_token _ .lineEnds) fun _ _ =>
      ensures_map (h.token_line _ (.operator pipe (by decide))) fun _ hline => ⟨by decide, hline⟩

theorem reads_comma : Keeps (I.cursor n) comma := h.keeps_token _ (.fixed "," (by decide))

theorem reads_separator : Keeps (I.cursor n) separator := by
  have htoken : Keeps (I.cursor n) separatorToken :=
    ensures_either (h.keeps_token _ .lineEnds) (h.keeps_token _ (.fixed ";" (by decide)))
  exact keeps_bind htoken fun _ => keeps_loop () fun _ => keeps_map htoken

theorem reads_separator? : Keeps (I.cursor n) separator? := keeps_skip h.reads_separator

theorem reads_commaList {first more : Rule Node} (hf : Ensures (I.cursor n) I.node first)
    (hm : Ensures (I.cursor n) I.node more) :
    Ensures (I.cursor n) I.goodNodes (commaList first more) := by
  have hstep : ∀ row : Row, I.goodNodes row.nodes →
      Ensures (I.cursor n) (fun row => I.goodNodes row.nodes) (rowStep more row) :=
    fun _ hnodes => ensures_bind h.reads_comma fun _ _ =>
      ensures_bind (keeps_optional h.reads_lineEnd) fun _ _ =>
        ensures_map hm fun _ hnode => Builds.nodes_snoc hnodes hnode
  exact ensures_bind hf fun node hnode => ensures_map (ensures_ordered _
    (ensures_loop (Row.mk [node] []) (Builds.nodes_cons hnode Builds.nodes_nil) hstep))
      fun _ hrow => hrow

/-! ### Items -/

section Nested

variable {inner : Nested} (hi : inner.Obeys I)

include hi

theorem reads_expression : Ensures (I.cursor n) I.node (expression inner) :=
  ensures_map (hi.chain n) fun chain hc => h.good_chainNode chain hc

theorem reads_keywordList : Ensures (I.cursor n) I.goodNodes (keywordList inner) := by
  have hentry : Ensures (I.cursor n) I.node (keywordEntry inner) :=
    ensures_bind (h.keeps_token _ .keywordKey) fun _ _ => ensures_bind h.reads_lineEnd? fun _ _ =>
      ensures_map (h.reads_expression hi) fun _ hvalue => h.pair _ _ (h.literal _) hvalue
  exact h.reads_commaList hentry hentry

theorem reads_itemsFrom {first more : Rule Node} (hf : Ensures (I.cursor n) I.node first)
    (hm : Ensures (I.cursor n) I.node more) :
    Ensures (I.cursor n) I.goodItems (itemsFrom inner first more) := by
  refine ensures_bind (h.reads_commaList hf hm) fun nodes hn => ?_
  refine ensures_map (Q := fun found => I.goodNodes (found.getD [])) ?_ fun _ hk => ⟨hn, hk⟩
  exact ensures_optional
    (ensures_bind h.reads_comma fun _ _ => ensures_bind h.reads_lineEnd? fun _ _ =>
      h.reads_keywordList hi) (fun _ hk => hk) Builds.nodes_nil

theorem reads_keywordItems : Ensures (I.cursor n) I.goodItems (keywordItems inner) :=
  ensures_map (h.reads_keywordList hi) fun _ hk => ⟨Builds.nodes_nil, hk⟩

theorem reads_items {first more : Rule Node} (hf : Ensures (I.cursor n) I.node first)
    (hm : Ensures (I.cursor n) I.node more) :
    Ensures (I.cursor n) I.goodItems (items inner first more) :=
  ensures_either (h.reads_itemsFrom hi hf hm) (h.reads_keywordItems hi)

theorem reads_callFrom (needsBlock : Bool) (form : Form) (hform : I.goodForm form) :
    Ensures (I.cursor n) I.node (callFrom inner needsBlock form) := by
  cases form with
  | callee callee =>
    have hargs : Ensures (I.cursor n) I.goodNodes (bareArguments inner) :=
      ensures_map (h.reads_items hi (h.reads_expression hi) (h.reads_expression hi))
        fun items hitems => h.good_grouped items hitems
    refine ensures_either (ensures_bind hargs fun args ha => ensures_either ?_ ?_) ?_
    · cases needsBlock with
      | true => exact ensures_fail
      | false => exact ensures_pure _ (h.good_invoke callee args hform ha)
    · exact ensures_map (hi.block n) fun _ hb => h.good_invoke callee _ hform (Builds.nodes_snoc ha hb)
    · exact ensures_map (hi.block n) fun _ hb =>
        h.good_invoke callee _ hform (Builds.nodes_cons hb Builds.nodes_nil)
  | invoked callee args =>
    exact ensures_map (hi.block n) fun _ hb =>
      h.good_invoke callee _ hform.1 (Builds.nodes_snoc hform.2 hb)
  | _ => exact ensures_fail

theorem reads_argumentWays : ∀ way ∈ argumentWays inner, ∀ chain, I.goodChain chain →
    Ensures (I.cursor n) I.node (way chain) := by
  intro way hw chain hc
  simp only [Grammar.argumentWays, List.mem_cons, List.not_mem_nil, or_false] at hw
  rcases hw with rfl | rfl
  · exact ensures_pure _ (h.good_chainNode chain hc)
  · exact h.reads_callFrom hi _ _ (Builds.good_chainForm chain hc)

theorem reads_argument : Ensures (I.cursor n) I.node (argument inner) :=
  ensures_branch _ (hi.chain n) (h.reads_argumentWays hi)

theorem reads_laterArgument : Ensures (I.cursor n) I.node (laterArgument inner) :=
  ensures_branch _ (hi.chain n) fun way hw =>
    h.reads_argumentWays hi way (List.mem_reverse.mp hw)

theorem reads_arguments : Ensures (I.cursor n) I.goodNodes (arguments inner) :=
  h.reads_commaList (h.reads_argument hi) (h.reads_laterArgument hi)

theorem reads_argumentItems : Ensures (I.cursor n) I.goodItems (argumentItems inner) :=
  h.reads_items hi (h.reads_argument hi) (h.reads_laterArgument hi)

theorem reads_callArguments : Ensures (I.cursor n) I.goodNodes (callArguments inner) := by
  refine ensures_bind (h.keeps_token _ .callParen) fun _ _ =>
    ensures_bind (Q := fun found => I.goodNodes (found.getD [])) ?_ fun _ ha =>
      ensures_map (h.reads_fixed ")" (by decide)) fun _ _ => ha
  refine ensures_optional ?_ (fun _ ha => ha) Builds.nodes_nil
  exact ensures_bind h.reads_lineEnd? fun _ _ =>
    ensures_bind (h.reads_argumentItems hi) fun items hitems =>
      ensures_bind (keeps_skip h.reads_comma) fun _ _ => ensures_map h.reads_lineEnd? fun _ _ =>
        h.good_grouped items hitems

theorem reads_bracketItems : Ensures (I.cursor n) I.goodItems (bracketItems inner) := by
  refine ensures_bind h.reads_lineEnd? fun _ _ =>
    ensures_bind (Q := fun found => I.goodItems (found.getD ⟨[], []⟩)) ?_ fun _ hf =>
      ensures_map h.reads_lineEnd? fun _ _ => hf
  refine ensures_optional ?_ (fun _ hf => hf) ⟨Builds.nodes_nil, Builds.nodes_nil⟩
  exact ensures_bind (h.reads_argumentItems hi) fun _ hf =>
    ensures_map (keeps_skip h.reads_comma) fun _ _ => hf

/-! ### Statements and blocks -/

theorem reads_statementWays : ∀ way ∈ statementWays inner, ∀ chain, I.goodChain chain →
    Ensures (I.cursor n) I.node (way chain) := by
  intro way hw chain hc
  have hform := Builds.good_chainForm chain hc
  simp only [Grammar.statementWays, List.mem_cons, List.not_mem_nil, or_false] at hw
  rcases hw with rfl | rfl | rfl | rfl
  · exact ensures_pure _ (h.good_chainNode chain hc)
  · exact h.reads_callFrom hi _ _ hform
  · show Ensures (I.cursor n) I.node (attributeFrom inner chain.form)
    unfold attributeFrom
    split
    · rename_i hshape
      rw [hshape] at hform
      refine ensures_map (h.reads_expression hi) fun value hv => ?_
      refine h.good_ownCall "@" _ _ (by decide) hform.2 (Builds.nodes_cons ?_ Builds.nodes_nil)
      exact h.call _ _ _ hform.1 (Builds.nodes_cons hv Builds.nodes_nil)
    · exact ensures_fail
  · unfold matchFrom
    split
    · exact ensures_fail
    · rename_i pattern joint form hm
      obtain ⟨hp, hj, hf⟩ := h.good_matching chain pattern joint form hc hm
      exact ensures_map (h.reads_callFrom hi _ _ hf) fun _ hr => h.good_join joint _ _ hj hp hr

theorem reads_statement : Ensures (I.cursor n) I.node (statement inner) :=
  ensures_preferred (ensures_branch _ (hi.chain n) (h.reads_statementWays hi))

theorem reads_statementsFrom (first : Node) (hf : I.node first) :
    Ensures (I.cursor n) I.goodNodes (statementsFrom inner first) :=
  ensures_loop _ (Builds.nodes_cons hf Builds.nodes_nil) fun _ hnodes =>
    ensures_bind h.reads_separator fun _ _ => ensures_map (h.reads_statement hi) fun _ hnode =>
      Builds.nodes_snoc hnodes hnode

theorem reads_statements : Ensures (I.cursor n) I.goodNodes (statements inner) :=
  ensures_bind (h.reads_statement hi) fun first hf => h.reads_statementsFrom hi first hf

omit hi in
theorem reads_clauseArrow (patterns : List Node) (hp : I.goodNodes patterns) :
    Ensures (I.cursor n) I.goodHead (clauseArrow patterns) :=
  ensures_bind (h.reads_fixed "->" (by decide)) fun _ hline =>
    ensures_map h.reads_separator? fun _ _ => ⟨hp, hline⟩

theorem reads_clauseHeadFrom (first : Chain) (hf : I.goodChain first) :
    Ensures (I.cursor n) I.goodHead (clauseHeadFrom inner first) :=
  ensures_bind (h.reads_commaList (ensures_pure _ (h.good_chainNode first hf)) (h.reads_expression hi))
    fun patterns hp => h.reads_clauseArrow patterns hp

theorem reads_entry : Ensures (I.cursor n) I.goodEntry (entry inner) := by
  refine ensures_either (ensures_preferred (ensures_branch _ (hi.chain n) ?_))
    (ensures_map (h.reads_clauseArrow [] Builds.nodes_nil) fun _ hh => hh)
  intro way hw chain hc
  rcases List.mem_append.mp hw with hw | hw
  · obtain ⟨plain, hp, rfl⟩ := List.mem_map.mp hw
    exact ensures_map (h.reads_statementWays hi plain hp chain hc) fun _ hn => hn
  · rw [List.mem_singleton.mp hw]
    exact ensures_map (h.reads_clauseHeadFrom hi chain hc) fun _ hh => hh

theorem reads_clausesFrom (head : ClauseHead) (hh : I.goodHead head) :
    Ensures (I.cursor n) I.goodNodes (clausesFrom inner head) := by
  refine ensures_bind (h.reads_statement hi) fun first hf =>
    ensures_map (ensures_loop (Q := I.goodClauses) _
      ⟨Builds.nodes_nil, hh, Builds.nodes_cons hf Builds.nodes_nil⟩ fun clauses hc => ?_)
      fun clauses hc => h.good_clausesNodes clauses hc
  refine ensures_bind h.reads_separator fun _ _ => ensures_bind (h.reads_entry hi) fun entry he => ?_
  cases entry with
  | statement node => exact ensures_pure _ ⟨hc.1, hc.2.1, Builds.nodes_snoc hc.2.2 he⟩
  | head next =>
    exact ensures_map (h.reads_statement hi) fun _ hs =>
      ⟨h.good_clausesNodes clauses hc, he, Builds.nodes_cons hs Builds.nodes_nil⟩

theorem reads_clauses : Ensures (I.cursor n) I.goodNodes (clauses inner) :=
  ensures_bind (ensures_either (h.reads_clauseArrow [] Builds.nodes_nil)
    (ensures_bind (hi.chain n) fun first hf => h.reads_clauseHeadFrom hi first hf))
    fun head hh => h.reads_clausesFrom hi head hh

theorem reads_sectionBody : Ensures (I.cursor n) I.node (sectionBody inner) := by
  have hsection : ∀ entry, I.goodEntry entry →
      Ensures (I.cursor n) I.node (sectionFrom inner entry) := by
    intro entry he
    cases entry with
    | statement node =>
      exact ensures_map (h.reads_statementsFrom hi node he) fun nodes hn => h.good_block nodes hn
    | head head => exact ensures_map (h.reads_clausesFrom hi head he) fun nodes hn => h.list nodes hn
  refine ensures_bind h.reads_separator? fun _ _ =>
    ensures_map (Q := fun found => I.node (found.getD (.block []))) ?_ fun _ hb => hb
  refine ensures_optional ?_ (fun _ hb => hb) (h.good_block [] Builds.nodes_nil)
  exact ensures_bind (ensures_bind (h.reads_entry hi) hsection) fun _ hb =>
    ensures_map h.reads_separator? fun _ _ => hb

theorem reads_blockOf : Ensures (I.cursor n) I.node (blockOf inner) := by
  -- the sections are read with one block more open, which the last word closes
  refine leads_bind (h.opening n "do" (.inl rfl)) fun _ =>
    leads_bind (B := fun body c => I.cursor (n + 1) c ∧ I.node body) ?_ fun body =>
      leads_bind (B := fun sections c => I.cursor (n + 1) c ∧ ∀ entry ∈ sections, I.node entry.2)
        ?_ fun sections => leads_bind (h.closes n _) fun _ => leads_pure _ fun c hc => ⟨hc.1, ?_⟩
  · exact fun c hc => h.reads_sectionBody hi c hc.1
  · intro c hc
    refine ensures_loop
      (Q := fun sections : List (String × Node) => ∀ entry ∈ sections, I.node entry.2) _
      (fun entry he => ?_) (fun sections hs => ?_) c hc.1
    · rw [List.mem_singleton.mp he]
      exact hc.2
    · refine ensures_bind (h.keeps_token _ .blockLabel) fun label _ =>
        ensures_map (h.reads_sectionBody hi) fun body hb => ?_
      exact List.forall_mem_append.mpr ⟨hs, List.forall_mem_singleton.mpr hb⟩
  · refine h.list _ fun item hitem => ?_
    obtain ⟨entry, he, rfl⟩ := List.mem_map.mp hitem
    exact h.pair _ _ (h.literal _) (hc.2 entry he)

end Nested

/-! ### Literals and names -/

theorem reads_decoded {α : Type} (terminal : Terminal) (ht : Ordinary terminal) (kind : String)
    (decode : String → Except DecodeError α) (node : α → Nat → Node)
    (hnode : ∀ value line, I.line line → I.node (node value line)) :
    Ensures (I.cursor n) I.node (decoded terminal kind decode node) := by
  refine ensures_bind (h.ordinary n terminal ht) fun found hfound => ?_
  cases decode found.text with
  | ok value => exact ensures_pure _ (hnode value found.line (h.tokenLine terminal found hfound))
  | error error =>
    exact ensures_map (h.report n terminal found kind error hfound) fun _ _ => h.literal _

theorem reads_literals : ∀ rule ∈ literals, Ensures (I.cursor n) I.node rule := by
  have hliteral : ∀ terminal value, Ordinary terminal →
      Ensures (I.cursor n) I.node (literal terminal value) := fun terminal _ ht =>
    ensures_map (h.keeps_token terminal ht) fun _ _ => h.literal _
  intro rule hr
  simp only [literals, List.mem_cons, List.not_mem_nil, or_false] at hr
  rcases hr with rfl | rfl | rfl | rfl | rfl | rfl | rfl | rfl | rfl | rfl | rfl | rfl | rfl
  · exact h.reads_decoded _ .integer _ _ _ fun _ _ _ => h.literal _
  · exact h.reads_decoded _ .float _ _ _ fun _ _ _ => h.literal _
  · exact h.reads_decoded _ .char _ _ _ fun _ _ _ => h.literal _
  · exact hliteral _ _ (.quotedText _ (.inl rfl))
  · exact hliteral _ _ (.heredoc _ (.inl rfl))
  · exact hliteral _ _ (.quotedText _ (.inr rfl))
  · exact hliteral _ _ (.heredoc _ (.inr rfl))
  · refine h.reads_decoded _ .sigil _ _ _ fun sigil line hline => ?_
    refine h.call _ _ _ (h.sigil _ line hline) (Builds.nodes_cons ?_
      (Builds.nodes_cons (h.literal _) Builds.nodes_nil))
    exact h.good_ownCall "<<>>" _ _ (by decide) hline
      (Builds.nodes_cons (h.literal _) Builds.nodes_nil)
  · exact hliteral _ _ .atom
  · exact hliteral _ _ (.keyword "true" (by decide))
  · exact hliteral _ _ (.keyword "false" (by decide))
  · exact hliteral _ _ (.keyword "nil" (by decide))
  · exact h.reads_decoded _ .captureArg _ _ _ fun _ _ hline =>
      h.good_ownCall "&" _ _ (by decide) hline (Builds.nodes_cons (h.literal _) Builds.nodes_nil)

theorem reads_moduleName : Ensures (I.cursor n) I.node moduleName := by
  have hmore : ∀ segments, Keeps (I.cursor n) (moreSegments segments) := fun segments =>
    keeps_loop _ fun _ => keeps_bind (h.keeps_token _ .dot) fun _ =>
      keeps_map (h.keeps_token _ .aliasSegment)
  refine ensures_either (ensures_bind (h.keeps_token _ .aliasSegment) fun _ _ =>
    ensures_map (hmore _) fun segments _ => h.good_aliases segments) ?_
  refine ensures_bind (h.ordinary n _ .name) fun name hname =>
    ensures_bind (h.keeps_token _ .dot) fun _ _ => ensures_bind (h.keeps_token _ .aliasSegment)
      fun _ _ => ensures_map (hmore _) fun segments _ => ?_
  exact h.group _ _ (.inr rfl) (Builds.nodes_cons (h.ident name hname) (h.good_atoms segments))

section Nested

variable {inner : Nested} (hi : inner.Obeys I)

include hi

theorem reads_nameTerm : Ensures (I.cursor n) I.goodTerm (nameTerm inner) := by
  refine ensures_bind (h.ordinary n _ .name) fun name hname => ?_
  have hcallee : I.goodCallee (.plain name.text name.line) := h.name name hname
  exact ensures_either (ensures_pure _ ⟨h.ident name hname, hcallee⟩)
    (ensures_map (h.reads_callArguments hi) fun args ha =>
      ⟨h.good_invoke _ args hcallee ha, hcallee, ha⟩)

omit hi in
theorem reads_attributeTerm : Ensures (I.cursor n) I.goodTerm attributeTerm :=
  ensures_bind (h.reads_fixed "@" (by decide)) fun sign hsign =>
    ensures_map (h.ordinary n _ .name) fun name hname =>
      ⟨h.good_ownCall "@" _ _ (by decide) hsign
        (Builds.nodes_cons (h.ident name hname) Builds.nodes_nil), h.name name hname, hsign⟩

/-! ### Collections -/

theorem reads_group : Ensures (I.cursor n) I.node (group inner) :=
  ensures_bind (h.keeps_token _ .groupParen) fun _ _ => ensures_bind h.reads_separator? fun _ _ =>
    ensures_bind (h.reads_statements hi) fun nodes hn => ensures_bind h.reads_separator? fun _ _ =>
      ensures_map (h.reads_fixed ")" (by decide)) fun _ _ => h.good_block nodes hn

theorem reads_bracketed (opening : Terminal) (closing : String) (node : Token → Items → Node)
    (ho : Ordinary opening) (hc : closing ∈ fixedTexts)
    (hnode : ∀ found items, I.line found.line → I.goodItems items → I.node (node found items)) :
    Ensures (I.cursor n) I.node (do
      let first ← Rule.token opening
      let found ← bracketItems inner
      let _ ← Rule.token (Terminal.fixed closing)
      return node first found) :=
  ensures_bind (h.token_line _ ho) fun first hf => ensures_bind (h.reads_bracketItems hi)
    fun found hitems => ensures_map (h.reads_fixed closing hc) fun _ _ => hnode first found hf hitems

theorem reads_entryValue (key : Node) (hk : I.node key) :
    Ensures (I.cursor n) I.node (entryValue inner key) :=
  ensures_bind h.reads_lineEnd? fun _ _ => ensures_bind (h.reads_fixed "=>" (by decide)) fun _ _ =>
    ensures_bind h.reads_lineEnd? fun _ _ => ensures_map (h.reads_argument hi) fun _ hv =>
      h.pair _ _ hk hv

omit h hi in
theorem good_spliced (items : Items) (hitems : I.goodItems items) : I.goodNodes items.spliced :=
  Builds.nodes_append hitems.1 hitems.2

theorem reads_mapEntriesFrom {first : Rule Node} (hf : Ensures (I.cursor n) I.node first) :
    Ensures (I.cursor n) I.goodNodes (mapEntriesFrom inner first) := by
  have hentry : Ensures (I.cursor n) I.node (mapEntry inner) :=
    ensures_bind (h.reads_argument hi) fun key hk => h.reads_entryValue hi key hk
  exact ensures_bind (h.reads_itemsFrom hi hf hentry) fun items hitems =>
    ensures_map (keeps_skip h.reads_comma) fun _ _ => good_spliced items hitems

theorem reads_mapKeywords : Ensures (I.cursor n) I.goodNodes (mapKeywords inner) :=
  ensures_bind (h.reads_keywordItems hi) fun items hitems =>
    ensures_map (keeps_skip h.reads_comma) fun _ _ => good_spliced items hitems

theorem reads_mapUpdateFrom {behindBar : Rule Unit} (hb : Keeps (I.cursor n) behindBar)
    (base : Chain) (hc : I.goodChain base) :
    Ensures (I.cursor n) I.goodNodes (mapUpdateFrom inner behindBar base) := by
  have hentries : Ensures (I.cursor n) I.goodNodes (mapEntries inner) :=
    ensures_either (h.reads_mapEntriesFrom hi
      (ensures_bind (h.reads_argument hi) fun key hk => h.reads_entryValue hi key hk))
      (h.reads_mapKeywords hi)
  refine ensures_bind (h.token_line _ (.operator _ (by decide))) fun bar hbar =>
    ensures_bind hb fun _ _ => ensures_map hentries fun found hf => ?_
  refine Builds.nodes_cons (h.good_ownCall "|" _ _ (by decide) hbar ?_) Builds.nodes_nil
  exact Builds.nodes_cons (h.good_chainNode base hc)
    (Builds.nodes_cons (h.list found hf) Builds.nodes_nil)

theorem reads_mapWays : ∀ way ∈ mapWays inner, ∀ chain, I.goodChain chain →
    Ensures (I.cursor n) I.goodNodes (way chain) := by
  intro way hw chain hc
  rcases List.mem_append.mp hw with hw | hw
  · simp only [List.mem_cons, List.not_mem_nil, or_false] at hw
    rcases hw with rfl | rfl
    · exact h.reads_mapUpdateFrom hi h.reads_lineEnd chain hc
    · exact h.reads_mapUpdateFrom hi (keeps_pure ()) chain hc
  · obtain ⟨plain, hp, rfl⟩ := List.mem_map.mp hw
    exact h.reads_mapEntriesFrom hi (ensures_bind (h.reads_argumentWays hi plain hp chain hc)
      fun key hk => h.reads_entryValue hi key hk)

theorem reads_mapBody : Ensures (I.cursor n) I.goodNodes (mapBody inner) := by
  have hbody : Ensures (I.cursor n) I.goodNodes
      (either (branch inner.chain (mapWays inner)) (mapKeywords inner)) :=
    ensures_either (ensures_branch _ (hi.chain n) (h.reads_mapWays hi)) (h.reads_mapKeywords hi)
  refine ensures_bind h.reads_lineEnd? fun _ _ =>
    ensures_bind (Q := fun found => I.goodNodes (found.getD []))
      (ensures_optional hbody (fun _ hf => hf) Builds.nodes_nil) fun _ hf => ?_
  exact ensures_bind h.reads_lineEnd? fun _ _ =>
    ensures_map (h.reads_fixed "\x7d" (by decide)) fun _ _ => hf

theorem reads_mapLiteral : Ensures (I.cursor n) I.node (mapLiteral inner) :=
  ensures_bind (h.reads_fixed "%\x7b" (by decide)) fun _ hline =>
    ensures_map (h.reads_mapBody hi) fun _ hentries =>
      h.good_ownCall "%\x7b\x7d" _ _ (by decide) hline hentries

theorem reads_structLiteral : Ensures (I.cursor n) I.node (structLiteral inner) := by
  have hname : Ensures (I.cursor n) I.node structName :=
    ensures_either h.reads_moduleName
      (ensures_map (h.ordinary n _ .name) fun name hn => h.ident name hn)
  refine ensures_bind (h.token_line _ .percent) fun sign hsign => ensures_bind hname fun name hn =>
    ensures_bind (h.reads_fixed "\x7b" (by decide)) fun _ _ =>
      ensures_map (h.reads_mapBody hi) fun entries hentries => ?_
  refine h.good_ownCall "%" _ _ (by decide) hsign (Builds.nodes_cons hn (Builds.nodes_cons ?_
    Builds.nodes_nil))
  exact h.good_ownCall "%\x7b\x7d" _ _ (by decide) hsign hentries

theorem reads_functionLiteral : Ensures (I.cursor n) I.node (functionLiteral inner) := by
  refine leads_bind (h.opening n "fn" (.inr rfl)) fun word => ?_
  refine leads_bind (B := fun _ c => I.cursor (n + 1) c ∧ I.line word.line) ?_ fun _ =>
    leads_bind (B := fun found c => I.cursor (n + 1) c ∧ I.line word.line ∧ I.goodNodes found) ?_
      fun found => leads_bind (B := fun _ c =>
        I.cursor (n + 1) c ∧ I.line word.line ∧ I.goodNodes found) ?_ fun _ =>
          leads_bind (h.closes n _) fun _ => leads_pure _ fun c hc => ⟨hc.1, ?_⟩
  · exact fun c hc way hw => ⟨(h.reads_separator? c hc.1 way hw).1, hc.2⟩
  · intro c hc way hw
    obtain ⟨hcursor, hfound⟩ := h.reads_clauses hi c hc.1 way hw
    exact ⟨hcursor, hc.2, hfound⟩
  · exact fun c hc way hw => ⟨(h.reads_separator? c hc.1 way hw).1, hc.2⟩
  · exact h.good_ownCall "fn" _ _ (by decide) hc.2.1 hc.2.2

/-! ### Terms -/

theorem reads_closedTerms : ∀ rule ∈ closedTerms inner, Ensures (I.cursor n) I.node rule := by
  intro rule hr
  rcases List.mem_append.mp hr with hr | hr
  · exact h.reads_literals rule hr
  · simp only [List.mem_cons, List.not_mem_nil, or_false] at hr
    rcases hr with rfl | rfl | rfl | rfl | rfl | rfl | rfl | rfl
    · exact h.reads_moduleName
    · exact h.reads_group hi
    · exact h.reads_bracketed hi _ "]" (fun _ found => .list found.spliced) .listBracket (by decide)
        fun _ items _ hitems => h.list _ (good_spliced items hitems)
    · refine h.reads_bracketed hi _ "\x7d" (fun opening found => tupleNode opening.line found.grouped)
        (.fixed "\x7b" (by decide)) (by decide) fun found items hline hitems => ?_
      have hgrouped := h.good_grouped items hitems
      unfold tupleNode
      split
      · rename_i left right heq
        rw [heq] at hgrouped
        exact h.pair _ _ (hgrouped _ List.mem_cons_self)
          (hgrouped _ (List.mem_cons_of_mem _ List.mem_cons_self))
      · exact h.good_ownCall "\x7b\x7d" _ _ (by decide) hline hgrouped
    · exact h.reads_mapLiteral hi
    · exact h.reads_structLiteral hi
    · exact h.reads_bracketed hi _ ">>"
        (fun opening found => .call "<<>>" (some found.grouped) (some opening.line))
        (.fixed "<<" (by decide)) (by decide)
        fun _ items hline hitems =>
          h.good_ownCall "<<>>" _ _ (by decide) hline (h.good_grouped items hitems)
    · exact h.reads_functionLiteral hi

theorem reads_primary : Ensures (I.cursor n) I.goodTerm (primary inner) := by
  refine ensures_preferred (ensures_choice _ fun rule hr => ?_)
  rcases List.mem_append.mp hr with hr | hr
  · simp only [List.mem_cons, List.not_mem_nil, or_false] at hr
    rcases hr with rfl | rfl
    · exact h.reads_nameTerm hi
    · exact h.reads_attributeTerm
  · obtain ⟨closed, hc, rfl⟩ := List.mem_map.mp hr
    exact ensures_map (h.reads_closedTerms hi closed hc) fun _ hn => ⟨hn, trivial⟩

theorem reads_remoteTerm (target : Node) (ht : I.node target) :
    Ensures (I.cursor n) I.goodTerm (remoteTerm inner target) := by
  refine ensures_bind (h.token_line _ .name) fun name hline => ?_
  have hcallee : I.goodCallee (.remote target name.text name.line) := ⟨ht, hline⟩
  exact ensures_either (ensures_pure _ ⟨h.good_invoke _ [] hcallee Builds.nodes_nil, hcallee⟩)
    (ensures_map (h.reads_callArguments hi) fun args ha =>
      ⟨h.good_invoke _ args hcallee ha, hcallee, ha⟩)

theorem reads_suffix (line : Nat) (term : Term) (hline : I.line line) (ht : I.node term.node) :
    Ensures (I.cursor n) I.goodTerm (suffix inner line term) := by
  have happly : ∀ head args, I.goodNodes head → I.goodNodes args →
      I.goodTerm (closedTerm (.apply (.call "." (some head) (some line)) (some args) (some line))) :=
    fun head args hh ha =>
      ⟨h.apply head args line line (h.good_ownCall "." head line (by decide) hline hh) hline ha,
        trivial⟩
  refine ensures_either (ensures_bind (h.keeps_token _ .dot) fun _ _ => ensures_choice _
    fun rule hr => ?_) ?_
  · simp only [List.mem_cons, List.not_mem_nil, or_false] at hr
    rcases hr with rfl | rfl | rfl
    · exact h.reads_remoteTerm hi _ ht
    · exact ensures_map (h.reads_callArguments hi) fun args ha =>
        happly _ args (Builds.nodes_cons ht Builds.nodes_nil) ha
    · refine ensures_bind (h.reads_fixed "\x7b" (by decide)) fun _ _ =>
        ensures_bind h.reads_lineEnd? fun _ _ =>
          ensures_bind (Q := fun found => I.goodNodes (found.getD []))
            (ensures_optional (h.reads_arguments hi) (fun _ hn => hn) Builds.nodes_nil) fun _ hn =>
            ensures_bind (keeps_skip h.reads_comma) fun _ _ =>
              ensures_bind h.reads_lineEnd? fun _ _ =>
                ensures_map (h.reads_fixed "\x7d" (by decide)) fun _ _ => ?_
      exact happly _ _ (Builds.nodes_cons ht (Builds.nodes_cons (h.literal _) Builds.nodes_nil)) hn
  · refine ensures_bind (h.keeps_token _ .accessBracket) fun _ _ =>
      ensures_bind h.reads_lineEnd? fun _ _ => ensures_bind (h.reads_expression hi) fun key hk =>
        ensures_bind h.reads_lineEnd? fun _ _ =>
          ensures_map (h.reads_fixed "]" (by decide)) fun _ _ => ?_
    exact happly _ _ (Builds.nodes_cons (h.good_aliases ["Access"])
      (Builds.nodes_cons (h.literal _) Builds.nodes_nil))
      (Builds.nodes_cons ht (Builds.nodes_cons hk Builds.nodes_nil))

theorem reads_postfixed : Ensures (I.cursor n) I.goodTerm (postfixed inner) := by
  have hline : Ensures (I.cursor n) I.line Rule.line := by
    intro c hc way hw
    rw [List.mem_singleton.mp hw]
    exact ⟨hc, h.cursorLine n c hc⟩
  exact ensures_bind hline fun line hl => ensures_bind (h.reads_primary hi) fun term ht =>
    ensures_loop term ht fun term ht => ensures_preferred (h.reads_suffix hi line term hl ht.1)

/-! ### Chains and programs -/

omit hi in
theorem good_signed (signs : List Token) (term : Term)
    (hs : ∀ sign ∈ signs, I.names sign.text sign.line) (ht : I.goodTerm term) :
    I.goodTerm (signed signs term) := by
  unfold signed
  split
  · exact ht
  · refine ⟨?_, trivial⟩
    show I.node (signs.foldr _ term.node)
    clear * - h hs ht
    induction signs with
    | nil => exact ht.1
    | cons sign signs ih =>
      exact h.call _ _ _ (hs sign List.mem_cons_self) (Builds.nodes_cons
        (ih fun other ho => hs other (List.mem_cons_of_mem _ ho)) Builds.nodes_nil)

theorem reads_operand (takesCapture : Bool) :
    Ensures (I.cursor n) I.goodOperand (operand inner takesCapture) := by
  have hcaptures : Ensures (I.cursor n) (fun lines => ∀ line ∈ lines, I.line line)
      (captureSigns takesCapture) := by
    cases takesCapture with
    | true =>
      refine ensures_loop _ nofun fun lines hl => ensures_map (h.token_line _ .captureSign)
        fun sign hs => ?_
      exact List.forall_mem_append.mpr ⟨hl, List.forall_mem_singleton.mpr hs⟩
    | false => exact ensures_pure _ nofun
  have hsigns : Ensures (I.cursor n) (fun signs => ∀ sign ∈ signs, I.names sign.text sign.line)
      signs := by
    refine ensures_loop _ nofun fun signs hs => ensures_map (Q := fun found =>
      I.names found.text found.line) (ensures_either ?_ ?_) fun sign hn => ?_
    · exact (h.ordinary n _ .sign).behind fun found _ hc => ⟨hc.1, h.sign found (.inl hc.2)⟩
    · exact (h.ordinary n _ (.keyword "not" (by decide))).behind fun found _ hc =>
        ⟨hc.1, h.sign found (.inr hc.2)⟩
    · exact List.forall_mem_append.mpr ⟨hs, List.forall_mem_singleton.mpr hn⟩
  exact ensures_bind hcaptures fun captures hc => ensures_bind hsigns fun signs hs =>
    ensures_map (h.reads_postfixed hi) fun term ht => ⟨hc, h.good_signed signs term hs ht⟩

theorem reads_chainOf : Ensures (I.cursor n) I.goodChain (chainOf inner) := by
  refine ensures_bind (h.reads_operand hi true) fun first hf => ensures_loop _ ⟨hf, nofun⟩
    fun chain hc => ensures_bind h.reads_joint fun joint hj =>
      ensures_map (h.reads_operand hi _) fun next hn => ⟨hc.1, ?_⟩
  exact List.forall_mem_append.mpr ⟨hc.2, List.forall_mem_singleton.mpr ⟨hj, hn⟩⟩

theorem reads_program : Ensures (I.cursor n) I.goodNodes (program inner) := by
  refine ensures_bind h.reads_separator? fun _ _ =>
    ensures_map (Q := fun found => I.goodNodes (found.getD [])) ?_ fun _ hn => hn
  refine ensures_optional ?_ (fun _ hn => hn) Builds.nodes_nil
  exact ensures_bind (h.reads_statements hi) fun _ hn => ensures_map h.reads_separator? fun _ _ => hn

end Nested

theorem reads_nested (depth : Nat) : (nested depth).Obeys I := by
  induction depth with
  | zero => exact ⟨fun _ => ensures_fail, fun _ => ensures_fail⟩
  | succ depth ih => exact ⟨fun _ => h.reads_chainOf ih, fun _ => h.reads_blockOf ih⟩

/-- Every way to read a source keeps an invariant that holds in front of it, and reads statements of
which the invariant holds. -/
theorem reads_readProgram (source : List Char)
    (hstart : I.cursor n (Cursor.start source).skipIgnored) :
    ∀ way ∈ (readProgram source).found, I.cursor n way.2 ∧ I.goodNodes way.1 :=
  fun way hw => h.reads_program (h.reads_nested _) _ hstart way hw

end Invariant.Lawful

end LineScope.Grammar
