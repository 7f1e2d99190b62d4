import LineScope.Proofs.Grammar.Fronts

/-!
# Reading operands of written expressions

At the front of an operand all rules but one are idle, and behind it nothing goes on with it.  So an
operand is read in one way, if the expressions in its parentheses are, and so is an operator.
-/

namespace LineScope.Grammar

open Rule Terminal

/-! ### Idle rules -/

section QuietAt

variable (inner : Nested) (front rest : List Char) (h : QuietAt rest)

include h

theorem idle_fixed (text : String) (htext : text ∈ quietTexts) :
    Idle (token (fixed text)) (.behind front rest) :=
  idle_token _ _ _ fun _ => h.texts text htext

theorem idle_keyword (word : String) (hword : word ∈ quietWords) :
    Idle (token (keyword word)) (.behind front rest) :=
  idle_token _ _ _ fun _ => h.words word hword

theorem idle_terminal (terminal : Terminal) (hterminal : terminal ∈ quietTerminals) :
    Idle (token terminal) (.behind front rest) :=
  idle_token _ _ _ (h.terminals terminal hterminal)

theorem idle_bracket : Idle (token accessBracket) (.behind front rest) ∧
    Idle (token listBracket) (.behind front rest) := by
  have hbracket := h.texts "[" (by decide)
  constructor
  · refine idle_token _ _ _ fun before => ?_
    rw [accessBracket, hbracket, ite_self]
  · refine idle_token _ _ _ fun before => ?_
    rw [listBracket, hbracket, ite_self]

theorem idle_lineEnds : Idle (token lineEnds) (.behind front rest) :=
  idle_terminal front rest h _ (by simp [quietTerminals])

theorem reads_lineEnd? : Reads lineEnd? (.behind front rest) () (.behind front rest) :=
  (idle_lineEnds front rest h).skip

theorem idle_separator : Idle separator (.behind front rest) :=
  ((idle_lineEnds front rest h).either (idle_fixed front rest h ";" (by decide))).bind

theorem reads_separator? : Reads separator? (.behind front rest) () (.behind front rest) :=
  (idle_separator front rest h).skip

theorem idle_comma : Idle comma (.behind front rest) := idle_fixed front rest h "," (by decide)

theorem idle_literals : ∀ rule ∈ literals, Idle rule (.behind front rest) := by
  have hterminal := idle_terminal front rest h
  have hword := idle_keyword front rest h
  simp only [literals, List.forall_mem_cons]
  refine ⟨?_, ?_, ?_, ?_, ?_, ?_, ?_, ?_, ?_, ?_, ?_, ?_, ?_, List.forall_mem_nil _⟩
  · exact (hterminal integer (by simp [quietTerminals])).bind
  · exact (hterminal float (by simp [quietTerminals])).bind
  · exact (hterminal char (by simp [quietTerminals])).bind
  · exact (hterminal (quotedText '"') (by simp [quietTerminals])).map _
  · exact (hterminal (heredoc '"') (by simp [quietTerminals])).map _
  · exact (hterminal (quotedText '\'') (by simp [quietTerminals])).map _
  · exact (hterminal (heredoc '\'') (by simp [quietTerminals])).map _
  · exact (hterminal sigil (by simp [quietTerminals])).bind
  · exact (hterminal atom (by simp [quietTerminals])).map _
  · exact (hword "true" (by decide)).map _
  · exact (hword "false" (by decide)).map _
  · exact (hword "nil" (by decide)).map _
  · exact (hterminal captureArg (by simp [quietTerminals])).bind

theorem idle_collections :
    ∀ rule ∈ [listLiteral inner, tupleLiteral inner, mapLiteral inner, structLiteral inner,
      bitsLiteral inner, functionLiteral inner], Idle rule (.behind front rest) := by
  simp only [List.forall_mem_cons]
  refine ⟨(idle_bracket front rest h).2.bind, ?_, ?_, ?_, ?_, ?_, List.forall_mem_nil _⟩
  · exact (idle_fixed front rest h "\x7b" (by decide)).bind
  · exact (idle_fixed front rest h "%\x7b" (by decide)).bind
  · exact (idle_terminal front rest h percent (by simp [quietTerminals])).bind
  · exact (idle_fixed front rest h "<<" (by decide)).bind
  · exact (idle_keyword front rest h "fn" (by decide)).bind

theorem idle_attributeTerm : Idle attributeTerm (.behind front rest) :=
  (idle_fixed front rest h "@" (by decide)).bind

theorem idle_plainModule : Idle plainModule (.behind front rest) :=
  (idle_terminal front rest h aliasSegment (by simp [quietTerminals])).bind

theorem idle_dot : Idle (token dot) (.behind front rest) :=
  idle_terminal front rest h _ (by simp [quietTerminals])

theorem idle_suffix (line : Nat) (term : Term) : Idle (suffix inner line term) (.behind front rest) :=
  (idle_dot front rest h).bind.either (idle_bracket front rest h).1.bind

theorem idle_blockOf : Idle (blockOf inner) (.behind front rest) :=
  (idle_keyword front rest h "do" (by decide)).bind

theorem reads_captureSigns (allowed : Bool) :
    Reads (captureSigns allowed) (.behind front rest) [] (.behind front rest) := by
  cases allowed with
  | false => exact reads_pure _ _
  | true =>
    exact reads_loop (idle_terminal front rest h captureSign (by simp [quietTerminals])).bind

theorem idle_not : Idle (token (keyword "not")) (.behind front rest) :=
  idle_keyword front rest h "not" (by decide)

end QuietAt

section Past

variable (inner : Nested) (front rest : List Char) (h : Past rest)

include h

theorem idle_name : Idle (token Terminal.name) (.behind front rest) := idle_token _ _ _ h.name

theorem idle_callArguments : Idle (callArguments inner) (.behind front rest) := by
  refine (idle_token _ _ _ fun before => ?_).bind
  rw [callParen, h.opening, ite_self]

theorem idle_group : Idle (group inner) (.behind front rest) := by
  refine (idle_token _ _ _ fun before => ?_).bind
  rw [groupParen, h.opening, ite_self]

theorem idle_keywordItems : Idle (keywordItems inner) (.behind front rest) :=
  (idle_token keywordKey front rest h.keywordKey).bind.bind.map _

theorem idle_primary : Idle (primary inner) (.behind front rest) := by
  have hq := h.toQuietAt
  have hname := idle_name front rest h
  have hclosed : ∀ rule ∈ closedTerms inner, Idle rule (.behind front rest) := by
    intro rule hrule
    rcases List.mem_append.mp hrule with hrule | hrule
    · exact idle_literals front rest hq rule hrule
    · rcases List.mem_cons.mp hrule with rfl | hrule
      · exact (idle_plainModule front rest hq).either hname.bind
      · rcases List.mem_cons.mp hrule with rfl | hrule
        · exact idle_group inner front rest h
        · exact idle_collections inner front rest hq rule hrule
  refine idle_preferred (idle_choice _ fun rule hrule => ?_)
  rcases List.mem_append.mp hrule with hrule | hrule
  · rcases List.mem_cons.mp hrule with rfl | hrule
    · exact hname.bind
    · rw [List.mem_singleton.mp hrule]
      exact idle_attributeTerm front rest hq
  · obtain ⟨closed, hc, rfl⟩ := List.mem_map.mp hrule
    exact (hclosed closed hc).map _

theorem idle_postfixed : Idle (postfixed inner) (.behind front rest) :=
  Reads.bind_idle (show Reads Rule.line (.behind front rest) 1 (.behind front rest) from rfl)
    (idle_primary inner front rest h).bind

end Past

/-! ### Operands -/

/-- Whether the rules read every expression in parentheses that is no longer than a bound. -/
def Nested.ReadsGroups (inner : Nested) (bound : Nat) : Prop :=
  ∀ (e : Expr) (front rest : List Char), (Leaf.group e).chars.length ≤ bound →
    front.getLast?.any takesArguments = false →
    Reads (group inner) (.behind front ((Leaf.group e).chars ++ rest)) e.node
      (Cursor.behind (front ++ (Leaf.group e).chars) rest).skipIgnored

theorem Name.newline_notMem (word : Name) : '\n' ∉ word.chars :=
  fun h => Bool.false_ne_true (word.continuesWord_of_mem '\n' h)

section Operand

variable (inner : Nested) (front rest : List Char)

theorem ahead_leaf (leaf : Leaf) (hrest : EndsWord rest) : Ahead (leaf.chars ++ rest) := by
  cases leaf with
  | name word => exact word.ahead_chars rest hrest
  | group e => exact ahead_paren _

theorem reads_name (word : Name) (hrest : EndsWord rest) :
    Reads (token Terminal.name) (.behind front (word.chars ++ rest))
      ⟨String.ofList word.chars, 1⟩ (Cursor.behind (front ++ word.chars) rest).skipIgnored :=
  reads_token _ front word.chars rest (word.name_chars rest hrest _) word.newline_notMem

/-- Behind an operand and a blank, nothing goes on with the operand. -/
structure Stops (front rest front' rest' : List Char) : Prop where
  endsWord : EndsWord rest
  skip : (Cursor.behind front rest).skipIgnored = .behind front' rest'
  past : Past rest'

theorem reads_primary_name (word : Name) (front' rest' : List Char)
    (hstops : Stops (front ++ word.chars) rest front' rest') :
    Reads (primary inner) (.behind front (word.chars ++ rest)) (Leaf.name word).term
      (.behind front' rest') := by
  have hahead := word.ahead_chars rest hstops.endsWord
  have hq := hahead.toQuietAt
  have hname := reads_name front rest word hstops.endsWord
  rw [hstops.skip] at hname
  have hterm : Reads (nameTerm inner) (.behind front (word.chars ++ rest)) (Leaf.name word).term
      (.behind front' rest') :=
    hname.bind ((reads_pure _ _).either ((idle_callArguments inner front' rest' hstops.past).map _))
  have hgroup : Idle (group inner) (.behind front (word.chars ++ rest)) := by
    refine (idle_token _ _ _ fun before => ?_).bind
    rw [groupParen, word.opening_chars rest, ite_self]
  have hmodule : Idle moduleName (.behind front (word.chars ++ rest)) :=
    (idle_plainModule front _ hq).either
      (hname.bind_idle (idle_dot front' rest' hstops.past.toQuietAt).bind)
  refine reads_preferred (reads_choice [] _ hterm (List.forall_mem_nil _) fun rule hrule => ?_)
  rcases List.mem_cons.mp hrule with rfl | hrule
  · exact idle_attributeTerm front _ hq
  · obtain ⟨closed, hclosed, rfl⟩ := List.mem_map.mp hrule
    refine Idle.map _ ?_
    rcases List.mem_append.mp hclosed with hclosed | hclosed
    · exact idle_literals front _ hq closed hclosed
    · rcases List.mem_cons.mp hclosed with rfl | hclosed
      · exact hmodule
      · rcases List.mem_cons.mp hclosed with rfl | hclosed
        · exact hgroup
        · exact idle_collections inner front _ hq closed hclosed

theorem reads_primary_group (bound : Nat) (hinner : inner.ReadsGroups bound) (e : Expr)
    (hbound : (Leaf.group e).chars.length ≤ bound)
    (hfront : front.getLast?.any takesArguments = false) :
    Reads (primary inner) (.behind front ((Leaf.group e).chars ++ rest)) (Leaf.group e).term
      (Cursor.behind (front ++ (Leaf.group e).chars) rest).skipIgnored := by
  have hq : QuietAt ((Leaf.group e).chars ++ rest) := (ahead_paren _).toQuietAt
  have hname : Idle (token Terminal.name) (.behind front ((Leaf.group e).chars ++ rest)) :=
    idle_token _ _ _ fun _ => rfl
  have hmodule : Idle moduleName (.behind front ((Leaf.group e).chars ++ rest)) :=
    (idle_plainModule front _ hq).either hname.bind
  have hgroup : Reads (closedTerm <$> group inner) (.behind front ((Leaf.group e).chars ++ rest))
      (Leaf.group e).term (Cursor.behind (front ++ (Leaf.group e).chars) rest).skipIgnored :=
    (hinner e front rest hbound hfront).map closedTerm
  refine reads_preferred (reads_choice
    ([nameTerm inner, attributeTerm] ++ (literals ++ [moduleName]).map (closedTerm <$> ·)) _ hgroup
    (fun rule hrule => ?_) fun rule hrule => ?_)
  · rcases List.mem_append.mp hrule with hrule | hrule
    · rcases List.mem_cons.mp hrule with rfl | hrule
      · exact hname.bind
      · rw [List.mem_singleton.mp hrule]
        exact idle_attributeTerm front _ hq
    · obtain ⟨closed, hclosed, rfl⟩ := List.mem_map.mp hrule
      refine Idle.map _ ?_
      rcases List.mem_append.mp hclosed with hclosed | hclosed
      · exact idle_literals front _ hq closed hclosed
      · rw [List.mem_singleton.mp hclosed]
        exact hmodule
  · obtain ⟨closed, hclosed, rfl⟩ := List.mem_map.mp hrule
    exact (idle_collections inner front _ hq closed hclosed).map _

theorem reads_postfixed (bound : Nat) (hinner : inner.ReadsGroups bound) (leaf : Leaf)
    (hbound : leaf.chars.length ≤ bound) (hfront : front.getLast?.any takesArguments = false)
    (front' rest' : List Char) (hstops : Stops (front ++ leaf.chars) rest front' rest') :
    Reads (postfixed inner) (.behind front (leaf.chars ++ rest)) leaf.term
      (.behind front' rest') := by
  have hprimary : Reads (primary inner) (.behind front (leaf.chars ++ rest)) leaf.term
      (.behind front' rest') := by
    cases leaf with
    | name word => exact reads_primary_name inner front rest word front' rest' hstops
    | group e =>
      rw [← hstops.skip]
      exact reads_primary_group inner front rest bound hinner e hbound hfront
  have hline : Reads Rule.line (.behind front (leaf.chars ++ rest)) 1
      (.behind front (leaf.chars ++ rest)) := rfl
  refine hline.bind (hprimary.bind ?_)
  exact reads_loop (idle_preferred (idle_suffix inner front' rest' hstops.past.toQuietAt _ _))

/-- Without capture signs and other signs, an operand is read as it is. -/
theorem reads_operand (bound : Nat) (hinner : inner.ReadsGroups bound) (leaf : Leaf)
    (hbound : leaf.chars.length ≤ bound) (hfront : front.getLast?.any takesArguments = false)
    (front' rest' : List Char) (hstops : Stops (front ++ leaf.chars) rest front' rest')
    (takesCapture : Bool) :
    Reads (operand inner takesCapture) (.behind front (leaf.chars ++ rest)) leaf.operand
      (.behind front' rest') := by
  have hahead := ahead_leaf rest leaf hstops.endsWord
  have hsigns : Reads signs (.behind front (leaf.chars ++ rest)) []
      (.behind front (leaf.chars ++ rest)) :=
    reads_loop ((idle_token _ _ _ hahead.sign).either (idle_not front _ hahead.toQuietAt)).bind
  have hpostfixed := reads_postfixed inner front rest bound hinner leaf hbound hfront front' rest'
    hstops
  exact (reads_captureSigns front _ hahead.toQuietAt takesCapture).bind
    (hsigns.bind (hpostfixed.bind (reads_pure _ _)))

end Operand

/-! ### Operators -/

theorem newline_notMem_operator : ∀ op ∈ Operator.all, '\n' ∉ op.text.toList := by decide

/-- An operator and the blank behind it are read as a joint. -/
theorem reads_joint (op : BinaryOperator) (front rest : List Char) (hrest : Ahead rest) :
    Reads joint (.behind front (op.val.front rest)) (.operator op.val 1)
      (.behind (front ++ op.val.text.toList ++ [' ']) rest) := by
  obtain ⟨hat, hwidth⟩ := at?_operator rest op.val op.property
  have hpast := past_operator rest op.val op.property
  have htoken := reads_token op.val.terminal front op.val.text.toList (' ' :: rest) hwidth
    (newline_notMem_operator op.val op.property)
  rw [Cursor.skipIgnored_blank _ rest hrest.solid] at htoken
  have hoperator : Reads readOperator (.behind front (op.val.front rest)) (.operator op.val 1)
      (.behind (front ++ op.val.text.toList ++ [' ']) rest) := by
    have hfound : Operator.at? (Cursor.behind front (op.val.front rest)).rest = some op.val := hat
    rw [Reads, readOperator, hfound]
    exact htoken.map fun token => Joint.operator op.val token.line
  refine Reads.bind (reads_choice [] _ hoperator (List.forall_mem_nil _) ?_)
    ((reads_lineEnd? _ rest hrest.toQuietAt).bind (reads_pure _ _))
  simp only [List.forall_mem_cons]
  exact ⟨(idle_not front _ hpast.toQuietAt).bind, (idle_lineEnds front _ hpast.toQuietAt).bind,
    List.forall_mem_nil _⟩

/-- Where no operator starts, a chain does not go on. -/
theorem idle_joint (front rest : List Char) (hrest : QuietAt rest) (hnone : Operator.at? rest = none) :
    Idle joint (.behind front rest) := by
  refine (idle_choice _ ?_).bind
  simp only [List.forall_mem_cons]
  refine ⟨?_, (idle_not front rest hrest).bind, (idle_lineEnds front rest hrest).bind,
    List.forall_mem_nil _⟩
  have hfound : Operator.at? (Cursor.behind front rest).rest = none := hnone
  rw [Idle, readOperator, hfound]
  rfl

end LineScope.Grammar
