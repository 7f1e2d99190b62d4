import LineScope.Proofs.Grammar.Blocked
import LineScope.Proofs.Grammar.Told

/-!
# What nested code tells

Items, calls, statements, clauses and blocks tell of the sites that they pass if the rules for the
code inside do.  A term may go on as a call and then gives up its node; it hands on what the node
mentions, unless it is the call of a marker, which stands in front of a closing parenthesis.
-/

namespace LineScope.Grammar

open Rule

variable {source : List Char}

/-! ### Terms that may go on -/

/-- The nodes of a callee. -/
def Callee.parts : Callee → List Node
  | .plain _ _ => []
  | .remote target name line => [dotted target name line]

/-- The nodes that a term hands on to the call that it becomes. -/
def Form.parts : Form → List Node
  | .callee called => called.parts
  | .invoked called args => called.parts ++ args
  | _ => []

/-- A callee that is no marker, unless it is the marker of a site. -/
def Callee.SiteNamed (source : List Char) : Callee → Prop
  | .plain name line => SiteName source name (some (line : Int))
  | .remote _ _ _ => True

/-- A form whose callee is no marker, unless it is the marker of a site. -/
def Form.SiteNamed (source : List Char) : Form → Prop
  | .callee called => called.SiteNamed source
  | .invoked called _ => called.SiteNamed source
  | _ => True

/-- A term in front of a cursor that hands on what it mentions, if it can go on there. -/
structure Term.Ready (source : List Char) (term : Term) (c : Cursor) : Prop where
  named : term.form.SiteNamed source
  handed : term.form = .closed ∨ c.Shut ∨ Covers source [term.node] term.form.parts

theorem ready_closedTerm (node : Node) (c : Cursor) : (closedTerm node).Ready source c :=
  ⟨trivial, .inl rfl⟩

theorem covers_invoke (callee : Callee) (args : List Node) (h : callee.SiteNamed source) :
    Covers source (callee.parts ++ args) [callee.invoke args] := by
  cases callee with
  | plain name line => exact covers_children (.call name (some args) (some line)) fun _ => h
  | remote target name line => exact covers_apply (dotted target name line) args (some line)

theorem covers_dotted (target : Node) (name : String) (line : Nat) :
    Covers source [target] [dotted target name line] :=
  ((Covers.refl [target]).append (covers_literal (.atom name))).trans
    (covers_call "." _ (some line) (.inl (by decide)))

/-- What has been read of a term. -/
structure TermRead (source : List Char) (old : List Node) (term : Term) (c : Cursor) : Prop where
  told : Told source (old ++ [term.node]) c
  ready : term.Ready source c

/-- What has been read of a chain. -/
structure ChainRead (source : List Char) (old : List Node) (chain : Chain) (c : Cursor) : Prop where
  told : Told source (old ++ chain.nodes) c
  ready : chain.last.term.Ready source c

/-- What the rules for nested code tell. -/
structure Nested.Tell (source : List Char) (inner : Nested) : Prop where
  chain : ∀ old, Leads (Told source old) (ChainRead source old) inner.chain
  block : Tells source [] (fun node => [node]) inner.block
  blocked : inner.Blocked

/-! ### Parts of items, clauses and blocks -/

theorem covers_grouped (items : Items) :
    Covers source (items.nodes ++ items.keywords) items.grouped := by
  unfold Items.grouped
  split
  · rename_i hempty
    rw [List.isEmpty_iff.mp hempty, List.append_nil]
    exact Covers.refl _
  · exact (covers_list items.keywords).append_left items.nodes

/-- The nodes of an entry. -/
def Entry.nodes : Entry → List Node
  | .statement node => [node]
  | .head found => found.patterns

/-- The parts of clauses that are being read. -/
def Clauses.parts (clauses : Clauses) : List Node :=
  clauses.done ++ (clauses.head.patterns ++ clauses.body)

theorem covers_clauseNode (head : ClauseHead) (body : List Node) :
    Covers source (head.patterns ++ body) [clauseNode head body] :=
  ((covers_list head.patterns).append (covers_block body)).trans
    (covers_call "->" _ (some head.line) (.inl (by decide)))

theorem covers_blockNode (sections : List (String × Node)) :
    Covers source (sections.map (·.2)) [blockNode sections] := by
  have hpairs : Covers source (sections.flatMap fun entry => [entry.2])
      (sections.map fun entry => .pair (.atom entry.1) entry.2) :=
    covers_flatMap sections _ _ fun entry _ =>
      ((covers_literal (.atom entry.1)).append (Covers.refl [entry.2])).trans (covers_pair _ _)
  rw [← List.map_eq_flatMap] at hpairs
  exact hpairs.trans (covers_list _)

/-! ### Separators -/

theorem tells_lineEnd (before : List Node) : Tells source before (fun _ => before) lineEnd :=
  tells_map (tells_flat Terminal.flat_lineEnds before) fun _ => Covers.refl before

theorem tells_lineEnd? (before : List Node) : Tells source before (fun _ => before) lineEnd? :=
  tells_skip (tells_flat Terminal.flat_lineEnds before)

theorem tells_comma (before : List Node) : Tells source before (fun _ => before) comma :=
  tells_fixed "," before (by decide)

theorem tells_separator (before : List Node) : Tells source before (fun _ => before) separator := by
  have htoken : Tells source before (fun _ => before) separatorToken :=
    tells_either (tells_flat Terminal.flat_lineEnds before) (tells_fixed ";" before (by decide))
  exact tells_bind htoken fun _ => tells_loop (fun _ => before) () fun _ =>
    tells_map htoken fun _ => Covers.refl before

theorem tells_separator? (before : List Node) : Tells source before (fun _ => before) separator? :=
  tells_skip (tells_separator before)

theorem tells_joint (before : List Node) : Tells source before (fun _ => before) joint := by
  have hoperator : Tells source before (fun _ => before) readOperator := by
    intro old c hc way hw
    unfold readOperator at hw
    split at hw
    · cases hw
    · rename_i op hop
      have hflat := Terminal.flat_operator op
        (Terminal.isFlatWord_operator op (List.mem_of_find?_eq_some hop))
      have hread : Tells source before (fun _ => before)
          ((fun token => Joint.operator op token.line) <$> token op.terminal) :=
        tells_map (tells_flat hflat before) fun _ => Covers.refl before
      exact hread old c hc way hw
  refine tells_bind (tells_choice _ fun rule hr => ?_) fun joint =>
    tells_map (tells_lineEnd? before) fun _ => Covers.refl before
  simp only [List.mem_cons, List.not_mem_nil, or_false] at hr
  rcases hr with rfl | rfl | rfl
  · exact hoperator
  · exact tells_bind (tells_keyword "not" before (by decide)) fun _ =>
      tells_map (tells_keyword "in" before (by decide)) fun _ => Covers.refl before
  · exact tells_bind (tells_flat Terminal.flat_lineEnds before) fun _ =>
      tells_map (tells_flat (Terminal.flat_operator pipe (by decide)) before) fun _ =>
        Covers.refl before

/-! ### Items -/

theorem leads_commaList {A : Cursor → Prop} {old : List Node} {first more : Rule Node}
    (hfirst : Leads A (fun node => Told source (old ++ [node])) first)
    (hmore : Tells source [] (fun node => [node]) more) :
    Leads A (fun nodes => Told source (old ++ nodes)) (commaList first more) := by
  refine leads_bind hfirst fun node => ?_
  have hstep : ∀ row : Row, Tells source row.nodes Row.nodes (rowStep more row) := fun row =>
    tells_bind (tells_comma _) fun _ =>
      tells_bind (tells_optional (fun _ => row.nodes) (tells_lineEnd _) (fun _ => Covers.refl _)
        (Covers.refl _)) fun _ => tells_map (hmore.after row.nodes) fun _ => Covers.refl _
  have hrows : Tells source [node] Row.nodes (loop (rowStep more) ⟨[node], []⟩) :=
    tells_loop Row.nodes ⟨[node], []⟩ hstep
  exact leads_map (leads_ordered _ (hrows old)) fun _ _ hc => hc

theorem tells_commaList {before : List Node} {first more : Rule Node}
    (hfirst : Tells source before (fun node => [node]) first)
    (hmore : Tells source [] (fun node => [node]) more) :
    Tells source before (fun nodes => nodes) (commaList first more) :=
  fun old => leads_commaList (hfirst old) hmore

theorem tells_keywordKey :
    Tells source [] (fun key => [.atom (Decode.keywordKey key.text)]) (token Terminal.keywordKey) := by
  intro old
  refine ((leads_enclosing Terminal.enclosing_keywordKey _).behind fun key c hc => ?_)
  rw [List.append_nil] at hc
  refine hc.told _ ?_ fun site hplanted => ?_
  · exact (covers_literal (.atom (Decode.keywordKey key.text))).genuine (fun _ h => by cases h) _
      (List.mem_singleton_self _)
  · obtain ⟨before, cs, w, hw, htext⟩ := hc.matched
    obtain ⟨body, hbody, -, hshape⟩ := Terminal.take_keywordKey before cs w hw
    exact Node.mentions_text _ _ _ rfl
      (Decode.infix_keywordKey site.barWord key.text body (htext.trans hbody) hshape hplanted)

section Nested

variable {inner : Nested} (h : inner.Tell source)

include h

theorem tells_expression : Tells source [] (fun node => [node]) (expression inner) := by
  intro old
  rw [List.append_nil]
  exact leads_map (h.chain old) fun chain _ hc => hc.told.covers ((Chain.covers_node chain).append_left old)

theorem tells_keywordList : Tells source [] (fun nodes => nodes) (keywordList inner) := by
  have hentry : Tells source [] (fun node => [node]) (keywordEntry inner) :=
    tells_bind tells_keywordKey fun key => tells_bind (tells_lineEnd? _) fun _ =>
      tells_map ((tells_expression h).after _) fun value => covers_pair _ value
  exact tells_commaList hentry hentry

theorem leads_itemsFrom {A : Cursor → Prop} {old : List Node} {first more : Rule Node}
    (hfirst : Leads A (fun node => Told source (old ++ [node])) first)
    (hmore : Tells source [] (fun node => [node]) more) :
    Leads A (fun items => Told source (old ++ (items.nodes ++ items.keywords)))
      (itemsFrom inner first more) := by
  refine leads_bind (leads_commaList hfirst hmore) fun nodes => ?_
  have hkeywords : Tells source nodes (fun keywords => nodes ++ keywords) (do
      let _ ← comma
      lineEnd?
      keywordList inner) :=
    tells_bind (tells_comma nodes) fun _ => tells_bind (tells_lineEnd? nodes) fun _ =>
      (tells_keywordList h).after nodes
  have hnone : Covers source nodes (nodes ++ []) := by
    rw [List.append_nil]
    exact Covers.refl nodes
  exact leads_map (tells_optional (fun keywords => nodes ++ keywords.getD []) hkeywords
    (fun _ => Covers.refl _) hnone old) fun _ _ hc => hc

theorem tells_keywordItems :
    Tells source [] (fun items => items.nodes ++ items.keywords) (keywordItems inner) :=
  tells_map (tells_keywordList h) fun _ => Covers.refl _

theorem tells_items {first more : Rule Node}
    (hfirst : Tells source [] (fun node => [node]) first)
    (hmore : Tells source [] (fun node => [node]) more) :
    Tells source [] (fun items => items.nodes ++ items.keywords) (items inner first more) :=
  tells_either (fun old => leads_itemsFrom h (hfirst old) hmore) (tells_keywordItems h)

/-! ### Calls -/

theorem tells_callFrom (needsBlock : Bool) (form : Form) (hnamed : form.SiteNamed source) :
    Tells source form.parts (fun node => [node]) (callFrom inner needsBlock form) := by
  have hblock : ∀ (callee : Callee) (args : List Node), callee.SiteNamed source →
      Tells source (callee.parts ++ args) (fun node => [node])
        ((fun block => callee.invoke (args ++ [block])) <$> inner.block) := by
    intro callee args hcallee
    refine tells_map (h.block.after _) fun block => ?_
    rw [List.append_assoc]
    exact covers_invoke callee (args ++ [block]) hcallee
  cases form with
  | callee callee =>
    have hargs : Tells source [] (fun args => args) (bareArguments inner) :=
      tells_map (tells_items h (tells_expression h) (tells_expression h)) fun items => covers_grouped items
    refine tells_either (tells_bind (hargs.after callee.parts) fun args => ?_) ?_
    · refine tells_either ?_ (hblock callee args hnamed)
      cases needsBlock with
      | true => exact tells_fail
      | false => exact tells_pure _ (covers_invoke callee args hnamed)
    · have hbare := hblock callee [] hnamed
      rwa [List.append_nil] at hbare
  | invoked callee args => exact hblock callee args hnamed
  | _ => exact tells_fail

/-- A term that goes on as a call. -/
theorem leads_callFrom (needsBlock : Bool) (old : List Node) (term : Term) :
    Leads (TermRead source old term) (fun node => Told source (old ++ [node]))
      (callFrom inner needsBlock term.form) := by
  intro c hc way hw
  rcases hc.ready.handed with hclosed | hshut | hcovers
  · rw [hclosed] at hw
    cases hw
  · exact (blocked_callFrom h.blocked needsBlock term.form c hshut way hw).elim
  · exact tells_callFrom h needsBlock term.form hc.ready.named old c
      (hc.told.covers (hcovers.append_left old)) way hw

omit h in
theorem leads_node (old : List Node) (chain : Chain) :
    Leads (ChainRead source old chain) (fun node => Told source (old ++ [node]))
      (pure chain.node : Rule Node) :=
  leads_pure _ fun _ hc => hc.told.covers ((Chain.covers_node chain).append_left old)

omit h in
/-- A chain that goes on as its only operand does. -/
theorem leads_form {rule : Form → Rule Node} (old : List Node) (chain : Chain)
    (hclosed : rule .closed = fail) (hterm : ∀ term : Term,
      Leads (TermRead source old term) (fun node => Told source (old ++ [node])) (rule term.form)) :
    Leads (ChainRead source old chain) (fun node => Told source (old ++ [node]))
      (rule chain.form) := by
  obtain ⟨first, rest⟩ := chain
  cases rest with
  | cons step rest =>
    rw [show (Chain.mk first (step :: rest)).form = .closed from rfl, hclosed]
    exact leads_fail
  | nil =>
    unfold Chain.form
    dsimp only
    split
    · exact (hterm first.term).weaken (fun _ hc => ⟨hc.told, hc.ready⟩) fun _ _ hc => hc
    · rw [hclosed]
      exact leads_fail

theorem leads_argumentWays (old : List Node) (chain : Chain) : ∀ way ∈ argumentWays inner,
    Leads (ChainRead source old chain) (fun node => Told source (old ++ [node])) (way chain) := by
  intro way hw
  rcases List.mem_cons.mp hw with rfl | hw
  · exact leads_node old chain
  · rw [List.mem_singleton.mp hw]
    exact leads_form old chain rfl fun term => leads_callFrom h true old term

theorem tells_argument : Tells source [] (fun node => [node]) (argument inner) := by
  intro old
  rw [List.append_nil]
  exact leads_branch _ (h.chain old) fun way hw chain => leads_argumentWays h old chain way hw

theorem tells_laterArgument : Tells source [] (fun node => [node]) (laterArgument inner) := by
  intro old
  rw [List.append_nil]
  exact leads_branch _ (h.chain old) fun way hw chain =>
    leads_argumentWays h old chain way (List.mem_reverse.mp hw)

theorem tells_arguments : Tells source [] (fun nodes => nodes) (arguments inner) :=
  tells_commaList (tells_argument h) (tells_laterArgument h)

theorem tells_argumentItems :
    Tells source [] (fun items => items.nodes ++ items.keywords) (argumentItems inner) :=
  tells_items h (tells_argument h) (tells_laterArgument h)

/-! ### Arguments in parentheses -/

/-- The arguments of a call that is no marker. -/
theorem leads_callArguments_apart (old : List Node) :
    Leads (fun c => Told source old c ∧ ∀ site : Site source, c.offset ≠ site.paren)
      (fun args => Told source (old ++ args)) (callArguments inner) := by
  refine leads_bind (leads_callParen_apart old) fun _ => ?_
  have hargs : Tells source [] (fun args => args) (do
      lineEnd?
      let args ← argumentItems inner
      skip comma
      lineEnd?
      return args.grouped) :=
    tells_bind (tells_lineEnd? []) fun _ => tells_bind (tells_argumentItems h) fun _ =>
      tells_bind (tells_skip (tells_comma _)) fun _ =>
        tells_map (tells_lineEnd? _) fun _ => covers_grouped _
  have hall : Tells source [] (fun args => args) (do
      let args ← optional (do
        lineEnd?
        let args ← argumentItems inner
        skip comma
        lineEnd?
        return args.grouped)
      let _ ← token (Terminal.fixed ")")
      return args.getD []) :=
    tells_bind (tells_optional (fun args => args.getD []) hargs (fun _ => Covers.refl _)
      (Covers.refl [])) fun _ => tells_map (tells_fixed ")" _ (by decide)) fun _ => Covers.refl _
  exact hall.leads old

omit h in
theorem leads_closing (site : Site source) (old : List Node) :
    Leads (MarkerRead site old) (fun _ c => Told source (old ++ [Node.marker site.line]) c ∧ c.Shut)
      (token (Terminal.fixed ")")) := by
  intro c hc way hw
  refine ⟨tells_fixed ")" [Node.marker site.line] (by decide) old c hc.told way hw, ?_⟩
  obtain ⟨w, ignored, hwidth, -, hignored, hover⟩ :=
    token_found source _ c hc.told.stands.placed way hw
  have hbehind := hover.rest
  rw [Terminal.take_textWidth ")" c.rest w hwidth, hc.rest, List.append_assoc] at hbehind
  have htail : ignored ++ way.2.rest = ')' :: site.behind := (List.cons.inj hbehind).2.symm
  have hnil := ignored_eq_nil ignored way.2.rest ')' site.behind hignored htail (by decide)
  rw [hnil, List.nil_append] at htail
  rw [Cursor.Shut, htail, List.head?_cons]

/-- A marker has no arguments, and a closing parenthesis stands behind it. -/
theorem leads_callArguments_site (site : Site source) (old : List Node) :
    Leads (fun c => Told source old c ∧ c.offset = site.paren)
      (fun args c => args = [] ∧ Told source (old ++ [Node.marker site.line]) c ∧ c.Shut)
      (callArguments inner) := by
  refine leads_bind (leads_callParen_site site old) fun _ => ?_
  have hargs : Blocked (do
      lineEnd?
      let args ← argumentItems inner
      skip comma
      lineEnd?
      return args.grouped) :=
    blocked_behind (leads_skip (blocked_token _ fun _ _ => rfl).shut) fun _ =>
      blocked_bind (blocked_items inner (blocked_argument h.blocked) _)
  have hnone : Leads (MarkerRead site old) (fun args c => args = none ∧ MarkerRead site old c)
      (optional (do
        lineEnd?
        let args ← argumentItems inner
        skip comma
        lineEnd?
        return args.grouped)) := by
    refine leads_optional (B := fun _ _ => False) (fun c hc way hw => ?_) (fun _ _ hc => hc.elim)
      fun _ hc => ⟨rfl, hc⟩
    exact hargs c (by rw [Cursor.Shut, hc.rest, List.head?_cons]) way hw
  refine leads_bind hnone fun args => ?_
  cases args with
  | some args =>
    intro c hc
    cases hc.1
  | none =>
    exact (leads_map (leads_closing site old) fun _ _ hc => ⟨rfl, hc⟩).weaken (fun _ hc => hc.2)
      fun _ _ hc => hc

theorem tells_bracketItems :
    Tells source [] (fun found => found.nodes ++ found.keywords)
      (bracketItems inner) := by
  have hfound : Tells source [] (fun found => found.nodes ++ found.keywords) (do
      let found ← argumentItems inner
      skip comma
      return found) :=
    tells_bind (tells_argumentItems h) fun _ =>
      tells_map (tells_skip (tells_comma _)) fun _ => Covers.refl _
  refine tells_bind (tells_lineEnd? []) fun _ => tells_bind (tells_optional
    (fun found => (found.getD ⟨[], []⟩).nodes ++ (found.getD ⟨[], []⟩).keywords) hfound
    (fun _ => Covers.refl _) (Covers.refl [])) fun found => ?_
  exact tells_map (tells_lineEnd? _) fun _ => Covers.refl _

/-! ### Statements and clauses -/

theorem leads_attributeFrom (old : List Node) (term : Term) :
    Leads (TermRead source old term) (fun node => Told source (old ++ [node]))
      (attributeFrom inner term.form) := by
  unfold attributeFrom
  split
  · rename_i name nameLine signLine hform
    have hvalue : Tells source [] (fun node => [node]) (do
        let value ← expression inner
        return Node.call "@" (some [.call name (some [value]) (some nameLine)]) (some signLine)) :=
      tells_map (tells_expression h) fun value =>
        (covers_call name [value] (some nameLine) (.inr (List.cons_ne_nil _ _))).trans
          (covers_call "@" _ (some signLine) (.inl (by decide)))
    intro c hc way hw
    rcases hc.ready.handed with hclosed | hshut | hcovers
    · rw [hclosed] at hform
      cases hform
    · exact (blocked_bind (blocked_map h.blocked.chain) c hshut way hw).elim
    · rw [hform] at hcovers
      exact hvalue old c (hc.told.covers (hcovers.append_left old)) way hw
  · exact leads_fail

theorem leads_matchFrom (old : List Node) (chain : Chain) :
    Leads (ChainRead source old chain) (fun node => Told source (old ++ [node]))
      (matchFrom inner chain) := by
  unfold matchFrom
  split
  · exact leads_fail
  · rename_i pattern joint form hmatching
    obtain ⟨init, operand, rfl, rfl, rfl⟩ := Chain.matching?_inv chain pattern joint form hmatching
    have hcall := leads_callFrom h false (old ++ init.nodes) operand.term
    refine (leads_map hcall fun node c hc => ?_).weaken (fun c hc => ?_) fun _ _ hc => hc
    · rw [List.append_assoc] at hc
      refine hc.covers (Covers.append_left old ?_)
      exact ((Chain.covers_node init).append (Covers.refl [node])).trans (covers_join joint _ _)
    · have htold := hc.told
      have hready := hc.ready
      rw [Chain.nodes_snoc, ← List.append_assoc] at htold
      rw [Chain.last_snoc] at hready
      exact ⟨htold, hready⟩

theorem leads_statementWays (old : List Node) (chain : Chain) : ∀ way ∈ statementWays inner,
    Leads (ChainRead source old chain) (fun node => Told source (old ++ [node])) (way chain) := by
  intro way hw
  simp only [statementWays, List.mem_cons, List.not_mem_nil, or_false] at hw
  rcases hw with rfl | rfl | rfl | rfl
  · exact leads_node old chain
  · exact leads_form old chain rfl fun term => leads_callFrom h false old term
  · exact leads_form old chain rfl fun term => leads_attributeFrom h old term
  · exact leads_matchFrom h old chain

theorem tells_statement : Tells source [] (fun node => [node]) (statement inner) := by
  intro old
  rw [List.append_nil]
  exact leads_preferred (leads_branch _ (h.chain old) fun way hw chain =>
    leads_statementWays h old chain way hw)

theorem tells_statementsFrom (first : Node) :
    Tells source [first] (fun nodes => nodes) (statementsFrom inner first) :=
  tells_loop (fun nodes => nodes) [first] fun nodes => tells_bind (tells_separator nodes) fun _ =>
    tells_map ((tells_statement h).after nodes) fun _ => Covers.refl _

theorem tells_statements : Tells source [] (fun nodes => nodes) (statements inner) :=
  tells_bind (tells_statement h) fun first => tells_statementsFrom h first

omit h in
theorem tells_clauseArrow (patterns : List Node) :
    Tells source patterns (fun head => head.patterns) (clauseArrow patterns) :=
  tells_bind (tells_fixed "->" patterns (by decide)) fun _ =>
    tells_map (tells_separator? patterns) fun _ => Covers.refl _

theorem tells_clauseHeadFrom (first : Chain) :
    Tells source first.nodes (fun head => head.patterns) (clauseHeadFrom inner first) :=
  tells_bind (tells_commaList (tells_pure first.node (Chain.covers_node first)) (tells_expression h))
    fun patterns => tells_clauseArrow patterns

theorem tells_clauseHead : Tells source [] (fun head => head.patterns) (clauseHead inner) := by
  refine tells_either (tells_clauseArrow []) fun old => ?_
  rw [List.append_nil]
  exact leads_bind (h.chain old) fun chain =>
    (tells_clauseHeadFrom h chain old).weaken (fun _ hc => hc.told) fun _ _ hc => hc

theorem tells_entry : Tells source [] Entry.nodes (entry inner) := by
  refine tells_either (fun old => ?_) (tells_map (tells_clauseArrow []) fun _ => Covers.refl _)
  rw [List.append_nil]
  refine leads_preferred (leads_branch _ (h.chain old) fun way hw chain => ?_)
  rcases List.mem_append.mp hw with hw | hw
  · obtain ⟨plain, hp, rfl⟩ := List.mem_map.mp hw
    exact leads_map (leads_statementWays h old chain plain hp) fun _ _ hc => hc
  · rw [List.mem_singleton.mp hw]
    exact leads_map ((tells_clauseHeadFrom h chain old).weaken (fun _ hc => hc.told)
      fun _ _ hc => hc) fun _ _ hc => hc

theorem tells_clauseStep (clauses : Clauses) :
    Tells source clauses.parts Clauses.parts (clauseStep inner clauses) := by
  refine tells_bind (tells_separator _) fun _ =>
    tells_bind ((tells_entry h).after clauses.parts) fun entry => ?_
  cases entry with
  | statement node =>
    refine tells_pure _ ?_
    rw [Clauses.parts, Clauses.parts, Entry.nodes, List.append_assoc, List.append_assoc]
    exact Covers.refl _
  | head head =>
    refine tells_map ((tells_statement h).after _) fun first => ?_
    rw [List.append_assoc]
    exact ((covers_clauseNode clauses.head clauses.body).append_left clauses.done).append
      (Covers.refl _)

theorem tells_clausesFrom (head : ClauseHead) :
    Tells source head.patterns (fun nodes => nodes) (clausesFrom inner head) := by
  refine tells_bind ((tells_statement h).after head.patterns) fun first => tells_map
    (tells_loop Clauses.parts ⟨[], head, [first]⟩ fun clauses => tells_clauseStep h clauses)
    fun clauses => ?_
  exact (covers_clauseNode clauses.head clauses.body).append_left clauses.done

theorem tells_clauses : Tells source [] (fun nodes => nodes) (clauses inner) :=
  tells_bind (tells_clauseHead h) fun head => tells_clausesFrom h head

/-! ### Blocks -/

theorem tells_sectionFrom (entry : Entry) :
    Tells source entry.nodes (fun node => [node]) (sectionFrom inner entry) := by
  cases entry with
  | statement node => exact tells_map (tells_statementsFrom h node) fun nodes => covers_block nodes
  | head head => exact tells_map (tells_clausesFrom h head) fun nodes => covers_list nodes

theorem tells_sectionBody : Tells source [] (fun node => [node]) (sectionBody inner) := by
  have hbody : Tells source [] (fun node => [node]) (do
      let body ← entry inner >>= sectionFrom inner
      separator?
      return body) :=
    tells_bind (tells_bind (tells_entry h) fun entry => tells_sectionFrom h entry) fun _ =>
      tells_map (tells_separator? _) fun _ => Covers.refl _
  exact tells_bind (tells_separator? []) fun _ => tells_map
    (tells_optional (fun body => [body.getD (.block [])]) hbody (fun _ => Covers.refl _)
      (covers_block [])) fun _ => Covers.refl _

theorem tells_blockOf : Tells source [] (fun node => [node]) (blockOf inner) := by
  have hsections : ∀ body, Tells source [body] (fun sections => sections.map (·.2))
      (loop (fun sections => do
        let label ← token Terminal.blockLabel
        let body ← sectionBody inner
        return sections ++ [(label.text, body)]) [("do", body)]) := by
    intro body
    refine tells_loop (fun sections => sections.map (·.2)) [("do", body)] fun sections =>
      tells_bind (tells_flat Terminal.flat_blockLabel _) fun label =>
        tells_map ((tells_sectionBody h).after _) fun next => ?_
    rw [List.map_append]
    exact Covers.refl _
  exact tells_bind (tells_keyword "do" [] (by decide)) fun _ =>
    tells_bind (tells_sectionBody h) fun body => tells_bind (hsections body) fun sections =>
      tells_map (tells_keyword "end" _ (by decide)) fun _ => covers_blockNode sections

end Nested

end LineScope.Grammar
