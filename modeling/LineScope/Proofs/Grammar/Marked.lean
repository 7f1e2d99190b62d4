import LineScope.Grammar.Parse
import LineScope.Proofs.Grammar.Telling

/-!
# What the grammar does with markers

Every rule of the grammar tells of the sites that it passes: the name at a site becomes the call of
its marker, and a text that reaches over a site becomes a literal that holds the name.  So the tree
of a source mentions every site, and has no other markers.
-/

namespace LineScope.Grammar

open Rule

variable {source : List Char}

/-! ### Literals -/

theorem genuine_of_covers {node : Node} (h : Covers source [] [node]) : Genuine source node :=
  h.genuine (fun _ hn => by cases hn) node (List.mem_singleton_self _)

theorem tells_flatLiteral {terminal : Terminal} (hflat : Terminal.Flat terminal)
    (value : String → Literal) :
    Tells source [] (fun node => [node]) (literal terminal value) :=
  tells_map (tells_flat hflat []) fun _ => covers_literal _

theorem tells_enclosingLiteral {terminal : Terminal} (hterminal : Terminal.Enclosing terminal)
    (value : String → Literal) (text : String → String)
    (hvalue : ∀ found, (value found).text? = some (text found))
    (hheld : ∀ (site : Site source) (found : String) before cs w, terminal before cs = some w →
      found.toList = cs.take w → Terminal.Planted site.word found.toList →
        site.word <:+: (text found).toList) :
    Tells source [] (fun node => [node]) (literal terminal value) := by
  intro old
  rw [List.append_nil]
  refine leads_map (leads_enclosing hterminal old) fun found c hc => ?_
  refine hc.told _ (genuine_of_covers (covers_literal _)) fun site hplanted => ?_
  obtain ⟨before, cs, w, hw, htext⟩ := hc.matched
  exact Node.mentions_text _ _ _ (hvalue found.text)
    (hheld site found.text before cs w hw htext hplanted)

theorem leads_report (fault : Fault) (old : List Node) (node : Node) (hnode : Genuine source node) :
    Leads (fun c => (∀ other ∈ old, Genuine source other) ∧ c.Stands source)
      (fun _ => Told source (old ++ [node])) (report fault) := by
  intro c ⟨hgenuine, hstands⟩ way hw
  rw [List.mem_singleton.mp hw]
  refine ⟨fun other ho => ?_, ⟨⟨?_, ?_⟩, hstands.outside⟩, fun site hp => ?_⟩
  · rcases List.mem_append.mp ho with ho | ho
    · exact hgenuine other ho
    · rw [List.mem_singleton.mp ho]
      exact hnode
  · exact ⟨hstands.placed.inside.split, hstands.placed.inside.offset_le,
      hstands.placed.inside.line_eq⟩
  · exact hstands.placed.before
  · have hfault := hp.2
    rw [Cursor.report] at hfault
    cases hc : c.fault with
    | none => simp [hc] at hfault
    | some found => simp [hc] at hfault

theorem tells_decoded {α : Type} {terminal : Terminal} (hflat : Terminal.Flat terminal)
    (kind : String) (decode : String → Except DecodeError α) (node : α → Nat → Node)
    (hnode : ∀ value line, Covers source [] [node value line]) :
    Tells source [] (fun node => [node]) (decoded terminal kind decode node) := by
  refine tells_bind (tells_flat hflat []) fun found => ?_
  cases decode found.text with
  | ok value => exact tells_pure _ (hnode value found.line)
  | error error =>
    intro old
    rw [List.append_nil]
    refine leads_map ((leads_report _ old (.literal .nil)
      (genuine_of_covers (covers_literal .nil))).weaken (fun c hc => ⟨hc.genuine, hc.stands⟩)
        fun _ _ hc => hc) fun _ _ hc => hc

theorem covers_sigilNode (found : Decode.Sigil) (line : Nat) :
    Covers source [.literal (.string found.content)] [sigilNode found line] := by
  have hbits : Covers source [.literal (.string found.content)] [_] :=
    covers_call "<<>>" [.literal (.string found.content)] (some line) (.inl (by decide))
  exact (hbits.append (covers_literal (.charlist found.modifiers))).trans
    (covers_call _ _ (some line) (.inr (List.cons_ne_nil _ _)))

theorem tells_sigil :
    Tells source [] (fun node => [node]) (decoded Terminal.sigil "sigil" Decode.sigil sigilNode) := by
  intro old
  rw [List.append_nil]
  refine leads_bind (leads_enclosing Terminal.enclosing_sigil old) fun found => ?_
  cases hdecode : Decode.sigil found.text with
  | ok value =>
    refine leads_pure _ fun c hc => ?_
    refine (hc.told (.literal (.string value.content)) (genuine_of_covers (covers_literal _))
      fun site hplanted => ?_).covers ((covers_sigilNode value found.line).append_left old)
    obtain ⟨before, cs, w, hw, htext⟩ := hc.matched
    obtain ⟨letter, opening, front, close, mods, hshape⟩ := Terminal.take_sigil before cs w hw
    rw [← htext] at hshape
    exact Node.mentions_text _ _ _ rfl
      (Decode.infix_sigil found.text hshape hplanted value hdecode)
  | error error =>
    exact leads_map ((leads_report _ old (.literal .nil)
      (genuine_of_covers (covers_literal .nil))).weaken (fun c hc => ⟨hc.genuine, hc.stands⟩)
        fun _ _ hc => hc) fun _ _ hc => hc

theorem tells_quoted (mark : Char) (hmark : mark = '"' ∨ mark = '\'') (value : String → Literal)
    (hvalue : ∀ found, (value found).text? = some (Decode.quoted found)) :
    Tells source [] (fun node => [node]) (literal (Terminal.quotedText mark) value) := by
  refine tells_enclosingLiteral (Terminal.enclosing_quotedText mark hmark) value Decode.quoted hvalue
    fun site found before cs w hw htext hplanted => ?_
  have hshape := Terminal.take_quotedText mark before cs w hw
  rw [← htext] at hshape
  exact Decode.infix_quoted site.barWord found mark hmark hshape hplanted

theorem tells_heredoc (mark : Char) (hmark : mark = '"' ∨ mark = '\'') (value : String → Literal)
    (hvalue : ∀ found, (value found).text? = some (Decode.heredoc found)) :
    Tells source [] (fun node => [node]) (literal (Terminal.heredoc mark) value) := by
  refine tells_enclosingLiteral (Terminal.enclosing_heredoc mark hmark) value Decode.heredoc hvalue
    fun site found before cs w hw htext hplanted => ?_
  have hshape := Terminal.take_heredocWidth mark cs w hw
  rw [← htext] at hshape
  exact Decode.infix_heredoc site.barWord found mark hmark hshape hplanted

theorem tells_atom :
    Tells source [] (fun node => [node])
      (literal Terminal.atom fun text => .atom (Decode.atom text)) := by
  refine tells_enclosingLiteral Terminal.enclosing_atom _ Decode.atom (fun _ => rfl)
    fun site found before cs w hw htext hplanted => ?_
  obtain ⟨body, hbody, hshape⟩ := Terminal.take_atom before cs w hw
  exact Decode.infix_atom site.barWord found body (htext.trans hbody) hshape hplanted

theorem tells_literals : ∀ rule ∈ literals, Tells source [] (fun node => [node]) rule := by
  intro rule hr
  simp only [literals, List.mem_cons, List.not_mem_nil, or_false] at hr
  rcases hr with rfl | rfl | rfl | rfl | rfl | rfl | rfl | rfl | rfl | rfl | rfl | rfl | rfl
  · exact tells_decoded Terminal.flat_integer _ _ _ fun _ _ => covers_literal _
  · exact tells_decoded Terminal.flat_float _ _ _ fun _ _ => covers_literal _
  · exact tells_decoded Terminal.flat_char _ _ _ fun _ _ => covers_literal _
  · exact tells_quoted '"' (.inl rfl) _ fun _ => rfl
  · exact tells_heredoc '"' (.inl rfl) _ fun _ => rfl
  · exact tells_quoted '\'' (.inr rfl) _ fun _ => rfl
  · exact tells_heredoc '\'' (.inr rfl) _ fun _ => rfl
  · exact tells_sigil
  · exact tells_atom
  · exact tells_flatLiteral (Terminal.flat_keyword "true" (by decide)) _
  · exact tells_flatLiteral (Terminal.flat_keyword "false" (by decide)) _
  · exact tells_flatLiteral (Terminal.flat_keyword "nil" (by decide)) _
  · exact tells_decoded Terminal.flat_captureArg _ _ _ fun _ _ =>
      (covers_literal _).trans (covers_call "&" _ _ (.inl (by decide)))

/-! ### Names -/

section Names

variable (honly : OnlySites source)

include honly

theorem tells_name (before : List Node) :
    Tells source before (fun _ => before) (token Terminal.name) :=
  fun old => (leads_name honly (old ++ before)).behind fun _ _ hc => hc.1

theorem tells_moduleName : Tells source [] (fun node => [node]) moduleName := by
  have hmore : ∀ segments, Tells source [] (fun _ => []) (moreSegments segments) := fun segments =>
    tells_loop (fun _ => []) segments fun _ => tells_bind (tells_flat Terminal.flat_dot []) fun _ =>
      tells_map (tells_flat Terminal.flat_aliasSegment []) fun _ => Covers.refl []
  refine tells_either (tells_bind (tells_flat Terminal.flat_aliasSegment []) fun _ =>
    tells_map (hmore _) fun segments => covers_aliases segments) ?_
  refine tells_bind (tells_name honly []) fun name =>
    tells_bind (tells_flat Terminal.flat_dot []) fun _ =>
      tells_bind (tells_flat Terminal.flat_aliasSegment []) fun _ =>
        tells_map (hmore _) fun segments => ?_
  exact ((covers_ident name.text (some name.line)).append (covers_atoms segments)).trans
    (covers_call aliasesHead _ none (.inl (by decide)))

theorem leads_attributeTerm (old : List Node) :
    Leads (Told source old) (TermRead source old) attributeTerm := by
  have hsign : Tells source [] (fun _ => []) (token (Terminal.fixed "@")) :=
    tells_fixed "@" [] (by decide)
  refine leads_bind (hsign.leads old) fun sign => ?_
  rw [List.append_nil]
  refine leads_bind ((tells_name honly []).leads old) fun name => leads_pure _ fun c hc => ?_
  have hnode : Covers source [] [.call "@" (some [identNode name]) (some sign.line)] :=
    (covers_ident name.text (some name.line)).trans (covers_call "@" _ _ (.inl (by decide)))
  have hnothing : Covers source [.call "@" (some [identNode name]) (some sign.line)] [] :=
    (covers_call_args "@" [identNode name] _ (by decide)).trans (covers_ident_nil _ _)
  exact ⟨hc.covers (hnode.append_left old), trivial, .inr (.inr hnothing)⟩

end Names

section Nested

variable {inner : Nested} (h : inner.Tell source)

include h

/-- A name at a site becomes the call of the marker; any other name is no marker. -/
theorem leads_nameTerm (honly : OnlySites source) (old : List Node) :
    Leads (Told source old) (TermRead source old) (nameTerm inner) := by
  refine leads_bind (leads_name honly old) fun name => leads_either ?_ ?_
  · refine leads_pure _ fun c hc => ⟨?_, hc.2.siteName, .inr (.inr (covers_ident_nil _ _))⟩
    have hident : Covers source (old ++ []) (old ++ [identNode name]) :=
      (covers_ident name.text (some name.line)).append_left old
    rw [List.append_nil] at hident
    exact hc.1.covers hident
  · intro c ⟨htold, hread⟩
    by_cases hsite : ∃ site : Site source, c.offset = site.paren
    · obtain ⟨site, hoffset⟩ := hsite
      obtain ⟨htext, hline⟩ := hread.site site hoffset
      refine leads_map (leads_callArguments_site h site old) (fun args c hc => ?_) c ⟨htold, hoffset⟩
      obtain ⟨rfl, htold, hshut⟩ := hc
      have hnode : (Callee.plain name.text name.line).invoke [] = Node.marker site.line := by
        rw [Callee.invoke, Node.marker, htext, hline]
      exact ⟨hnode ▸ htold, hread.siteName, .inr (.inl hshut)⟩
    · have hapart : ∀ site : Site source, c.offset ≠ site.paren := fun site he => hsite ⟨site, he⟩
      have hnone := hread.apart hapart
      refine leads_map (leads_callArguments_apart h old) (fun args c hc => ?_) c ⟨htold, hapart⟩
      exact ⟨hc.covers ((covers_call name.text args _ (.inl hnone)).append_left old), hread.siteName,
        .inr (.inr (covers_call_args name.text args _ hnone))⟩

/-! ### Collections -/

theorem tells_group : Tells source [] (fun node => [node]) (group inner) :=
  tells_bind (tells_groupParen []) fun _ => tells_bind (tells_separator? []) fun _ =>
    tells_bind (tells_statements h) fun nodes => tells_bind (tells_separator? _) fun _ =>
      tells_map (tells_fixed ")" _ (by decide)) fun _ => covers_block nodes

theorem tells_bracketed {opening closing : Terminal} (hopening : Terminal.Flat opening)
    (hclosing : Terminal.Flat closing) (node : Token → Items → Node)
    (hnode : ∀ first found, Covers source (found.nodes ++ found.keywords) [node first found]) :
    Tells source [] (fun node => [node]) (do
      let first ← token opening
      let found ← bracketItems inner
      let _ ← token closing
      return node first found) :=
  tells_bind (tells_flat hopening []) fun first => tells_bind (tells_bracketItems h) fun found =>
    tells_map (tells_flat hclosing _) fun _ => hnode first found

omit h in
theorem covers_tupleNode (line : Nat) (nodes : List Node) :
    Covers source nodes [tupleNode line nodes] := by
  unfold tupleNode
  split
  · exact covers_pair _ _
  · exact covers_call _ _ _ (.inl (by decide))

theorem tells_entryValue (key : Node) :
    Tells source [key] (fun node => [node]) (entryValue inner key) :=
  tells_bind (tells_lineEnd? _) fun _ => tells_bind (tells_fixed "=>" _ (by decide)) fun _ =>
    tells_bind (tells_lineEnd? _) fun _ => tells_map ((tells_argument h).after [key]) fun value =>
      covers_pair key value

theorem leads_mapEntriesFrom {A : Cursor → Prop} {old : List Node} {first : Rule Node}
    (hfirst : Leads A (fun node => Told source (old ++ [node])) first) :
    Leads A (fun nodes => Told source (old ++ nodes)) (mapEntriesFrom inner first) := by
  have hentry : Tells source [] (fun node => [node]) (mapEntry inner) :=
    tells_bind (tells_argument h) fun key => tells_entryValue h key
  exact leads_bind (leads_itemsFrom h hfirst hentry) fun items =>
    leads_map (tells_skip (tells_comma (items.nodes ++ items.keywords)) old) fun _ _ hc => hc

theorem tells_mapKeywords : Tells source [] (fun nodes => nodes) (mapKeywords inner) :=
  tells_bind (tells_keywordItems h) fun _ =>
    tells_map (tells_skip (tells_comma _)) fun _ => Covers.refl _

theorem tells_mapUpdateFrom {behindBar : Rule Unit} (base : Chain)
    (hbehind : Tells source base.nodes (fun _ => base.nodes) behindBar) :
    Tells source base.nodes (fun nodes => nodes) (mapUpdateFrom inner behindBar base) := by
  have hbar : Terminal.Flat (Operator.symbol "|" .bar "|>").terminal :=
    Terminal.flat_operator _ (by decide)
  have hentry : Tells source [] (fun node => [node]) (mapEntry inner) :=
    tells_bind (tells_argument h) fun key => tells_entryValue h key
  have hentries : Tells source [] (fun nodes => nodes) (mapEntries inner) :=
    tells_either (fun old => leads_mapEntriesFrom h (hentry old)) (tells_mapKeywords h)
  refine tells_bind (tells_flat hbar _) fun bar => tells_bind hbehind fun _ =>
    tells_map (hentries.after base.nodes) fun found => ?_
  exact ((Chain.covers_node base).append (covers_list found)).trans
    (covers_call "|" _ (some bar.line) (.inl (by decide)))

theorem leads_mapWays (old : List Node) (chain : Chain) : ∀ way ∈ mapWays inner,
    Leads (ChainRead source old chain) (fun nodes => Told source (old ++ nodes)) (way chain) := by
  have hupdate : ∀ behindBar : Rule Unit,
      Tells source chain.nodes (fun _ => chain.nodes) behindBar →
      Leads (ChainRead source old chain) (fun nodes => Told source (old ++ nodes))
        (mapUpdateFrom inner behindBar chain) := fun _ hbehind =>
    (tells_mapUpdateFrom h chain hbehind old).weaken (fun _ hc => hc.told) fun _ _ hc => hc
  intro way hw
  rcases List.mem_append.mp hw with hw | hw
  · simp only [List.mem_cons, List.not_mem_nil, or_false] at hw
    rcases hw with rfl | rfl
    · exact hupdate lineEnd (tells_lineEnd _)
    · exact hupdate (pure ()) (tells_pure () (Covers.refl _))
  · obtain ⟨plain, hp, rfl⟩ := List.mem_map.mp hw
    exact leads_mapEntriesFrom h (leads_bind (leads_argumentWays h old chain plain hp) fun key =>
      tells_entryValue h key old)

theorem tells_mapBody : Tells source [] (fun nodes => nodes) (mapBody inner) := by
  have hways : Tells source [] (fun nodes => nodes) (branch inner.chain (mapWays inner)) := by
    intro old
    rw [List.append_nil]
    exact leads_branch _ (h.chain old) fun way hw chain => leads_mapWays h old chain way hw
  exact tells_bind (tells_lineEnd? []) fun _ => tells_bind (tells_optional
    (fun found => found.getD []) (tells_either hways (tells_mapKeywords h)) (fun _ => Covers.refl _)
      (Covers.refl [])) fun _ => tells_bind (tells_lineEnd? _) fun _ =>
        tells_map (tells_fixed "\x7d" _ (by decide)) fun _ => Covers.refl _

omit h in
theorem covers_mapNode (entries : List Node) (line : Nat) :
    Covers source entries [mapNode entries line] :=
  covers_call _ _ _ (.inl (by decide))

theorem tells_mapLiteral : Tells source [] (fun node => [node]) (mapLiteral inner) :=
  tells_bind (tells_fixed "%\x7b" [] (by decide)) fun _ =>
    tells_map (tells_mapBody h) fun entries => covers_mapNode entries _

theorem tells_structLiteral (honly : OnlySites source) :
    Tells source [] (fun node => [node]) (structLiteral inner) := by
  have hname : Tells source [] (fun node => [node]) structName :=
    tells_either (tells_moduleName honly) (tells_map (tells_name honly []) fun name =>
      covers_ident name.text (some name.line))
  refine tells_bind (tells_flat Terminal.flat_percent []) fun sign => tells_bind hname fun name =>
    tells_bind (tells_fixed "\x7b" _ (by decide)) fun _ =>
      tells_map ((tells_mapBody h).after [name]) fun entries => ?_
  exact ((covers_mapNode entries sign.line).append_left [name]).trans
    (covers_call "%" _ (some sign.line) (.inl (by decide)))

theorem tells_functionLiteral : Tells source [] (fun node => [node]) (functionLiteral inner) :=
  tells_bind (tells_keyword "fn" [] (by decide)) fun word =>
    tells_bind (tells_separator? []) fun _ => tells_bind (tells_clauses h) fun found =>
      tells_bind (tells_separator? _) fun _ =>
        tells_map (tells_keyword "end" _ (by decide)) fun _ =>
          covers_call "fn" found (some word.line) (.inl (by decide))

/-! ### Terms -/

theorem tells_closedTerms (honly : OnlySites source) : ∀ rule ∈ closedTerms inner,
    Tells source [] (fun node => [node]) rule := by
  intro rule hr
  rcases List.mem_append.mp hr with hr | hr
  · exact tells_literals rule hr
  · simp only [List.mem_cons, List.not_mem_nil, or_false] at hr
    rcases hr with rfl | rfl | rfl | rfl | rfl | rfl | rfl | rfl
    · exact tells_moduleName honly
    · exact tells_group h
    · exact tells_bracketed h Terminal.flat_listBracket (Terminal.flat_fixed "]" (by decide))
        (fun _ found => .list found.spliced) fun _ found => covers_list _
    · exact tells_bracketed h (Terminal.flat_fixed _ (by decide)) (Terminal.flat_fixed _ (by decide))
        (fun opening found => tupleNode opening.line found.grouped) fun _ found =>
          (covers_grouped found).trans (covers_tupleNode _ _)
    · exact tells_mapLiteral h
    · exact tells_structLiteral h honly
    · exact tells_bracketed h (Terminal.flat_fixed _ (by decide)) (Terminal.flat_fixed _ (by decide))
        (fun opening found => .call "<<>>" (some found.grouped) (some opening.line)) fun _ found =>
          (covers_grouped found).trans (covers_call "<<>>" _ _ (.inl (by decide)))
    · exact tells_functionLiteral h

theorem leads_primary (honly : OnlySites source) (old : List Node) :
    Leads (Told source old) (TermRead source old) (primary inner) := by
  refine leads_preferred (leads_choice _ fun rule hr => ?_)
  rcases List.mem_append.mp hr with hr | hr
  · simp only [List.mem_cons, List.not_mem_nil, or_false] at hr
    rcases hr with rfl | rfl
    · exact leads_nameTerm h honly old
    · exact leads_attributeTerm honly old
  · obtain ⟨closed, hc, rfl⟩ := List.mem_map.mp hr
    exact leads_map ((tells_closedTerms h honly closed hc).leads old) fun node _ hc =>
      ⟨hc, ready_closedTerm node _⟩

theorem leads_remoteTerm (old : List Node) (target : Node) :
    Leads (fun c => Told source (old ++ [target]) c ∧ c.Apart source) (TermRead source old)
      (remoteTerm inner target) := by
  refine leads_bind (leads_name_apart _) fun name => leads_either ?_ ?_
  · refine leads_pure _ fun c hc => ⟨?_, trivial, .inr (.inr (covers_apply_parts _ [] _))⟩
    exact hc.1.covers (((covers_dotted target name.text name.line).trans
      (covers_apply _ [] _)).append_left old)
  · refine leads_map ((leads_callArguments_apart h (old ++ [target])).weaken
      (fun c hc => ⟨hc.1, hc.2.ne_paren⟩) fun _ _ hc => hc) fun args c hc => ?_
    rw [List.append_assoc] at hc
    refine ⟨hc.covers (Covers.append_left old ?_), trivial, .inr (.inr (covers_apply_parts _ args _))⟩
    exact ((covers_dotted target name.text name.line).append (Covers.refl args)).trans
      (covers_apply _ args _)

theorem leads_anonymousCall (old : List Node) (target : Node) (line : Nat) :
    Leads (fun c => Told source (old ++ [target]) c ∧ c.Apart source) (TermRead source old)
      (anonymousCall inner target line) := by
  refine leads_map ((leads_callArguments_apart h (old ++ [target])).weaken
    (fun c hc => ⟨hc.1, hc.2.ne_paren⟩) fun _ _ hc => hc) fun args c hc => ?_
  rw [List.append_assoc] at hc
  refine ⟨hc.covers (Covers.append_left old ?_), ready_closedTerm _ _⟩
  exact ((covers_call "." [target] (some line) (.inl (by decide))).append (Covers.refl args)).trans
    (covers_apply _ args _)

theorem leads_multiAlias (old : List Node) (target : Node) (line : Nat) :
    Leads (Told source (old ++ [target])) (TermRead source old) (multiAlias inner target line) := by
  have hall : Tells source [target] (fun nodes => [target] ++ nodes.getD [])
      (optional (arguments inner)) :=
    (tells_optional (fun nodes => nodes.getD []) (tells_arguments h) (fun _ => Covers.refl _)
      (Covers.refl [])).after [target]
  refine leads_bind (tells_fixed "\x7b" [target] (by decide) old) fun _ =>
    leads_bind (tells_lineEnd? [target] old) fun _ => leads_bind (hall old) fun nodes =>
      leads_bind (tells_skip (tells_comma _) old) fun _ => leads_bind (tells_lineEnd? _ old) fun _ =>
        leads_map (tells_fixed "\x7d" _ (by decide) old) fun _ c hc =>
          ⟨hc.covers (Covers.append_left old ?_), ready_closedTerm _ c⟩
  exact ((covers_dotted target _ line).append (Covers.refl _)).trans (covers_apply _ _ _)

theorem leads_access (old : List Node) (target : Node) (line : Nat) :
    Leads (Told source (old ++ [target])) (TermRead source old) (access inner target line) := by
  refine leads_bind (tells_flat Terminal.flat_accessBracket [target] old) fun _ =>
    leads_bind (tells_lineEnd? [target] old) fun _ =>
      leads_bind ((tells_expression h).after [target] old) fun key =>
        leads_bind (tells_lineEnd? _ old) fun _ =>
          leads_map (tells_fixed "]" _ (by decide) old) fun _ c hc =>
            ⟨hc.covers (Covers.append_left old ?_), ready_closedTerm _ c⟩
  exact (((covers_aliases ["Access"]).trans (covers_dotted _ "get" line)).append (Covers.refl _)).trans
    (covers_apply _ [target, key] _)

theorem leads_suffix (old : List Node) (line : Nat) (term : Term) :
    Leads (TermRead source old term) (TermRead source old) (suffix inner line term) := by
  refine Leads.weaken (leads_either ?_ (leads_access h old term.node line)) (fun _ hc => hc.told)
    fun _ _ hc => hc
  refine leads_bind (leads_flat Terminal.flat_dot _) fun _ => leads_choice _ fun rule hr => ?_
  simp only [List.mem_cons, List.not_mem_nil, or_false] at hr
  rcases hr with rfl | rfl | rfl
  · exact leads_remoteTerm h old term.node
  · exact leads_anonymousCall h old term.node line
  · exact (leads_multiAlias h old term.node line).weaken (fun _ hc => hc.1) fun _ _ hc => hc

theorem leads_postfixed (honly : OnlySites source) (old : List Node) :
    Leads (Told source old) (TermRead source old) (postfixed inner) := by
  have hline : Leads (Told source old) (fun _ => Told source old) Rule.line := by
    intro c hc way hw
    rw [List.mem_singleton.mp hw]
    exact hc
  exact leads_bind hline fun line => leads_bind (leads_primary h honly old) fun term =>
    leads_loop term fun term => leads_preferred (leads_suffix h old line term)

/-! ### Chains and programs -/

omit h in
theorem covers_signs (signs : List Token) (node : Node) :
    Covers source [node] [signs.foldr
      (fun sign node => .call sign.text (some [node]) (some sign.line)) node] := by
  induction signs with
  | nil => exact Covers.refl _
  | cons sign signs ih => exact ih.trans (covers_call _ _ _ (.inr (List.cons_ne_nil _ _)))

omit h in
theorem TermRead.signed {old : List Node} {term : Term} {c : Cursor} (signs : List Token)
    (hc : TermRead source old term c) : TermRead source old (signed signs term) c := by
  unfold Grammar.signed
  split
  · exact hc
  · exact ⟨hc.told.covers ((covers_signs signs term.node).append_left old), ready_closedTerm _ c⟩

theorem leads_operand (honly : OnlySites source) (takesCapture : Bool) (old : List Node) :
    Leads (Told source old) (fun found => TermRead source old found.term)
      (operand inner takesCapture) := by
  have hcaptures : Tells source [] (fun _ => []) (captureSigns takesCapture) := by
    cases takesCapture with
    | true =>
      exact tells_loop (fun _ => []) [] fun _ =>
        tells_map (tells_flat Terminal.flat_captureSign []) fun _ => Covers.refl []
    | false => exact tells_pure _ (Covers.refl [])
  have hsigns : Tells source [] (fun _ => []) signs :=
    tells_loop (fun _ => []) [] fun _ => tells_map (tells_either
      (tells_flat Terminal.flat_sign []) (tells_keyword "not" [] (by decide))) fun _ => Covers.refl []
  refine leads_bind (hcaptures.leads old) fun captures => ?_
  rw [List.append_nil]
  refine leads_bind (hsigns.leads old) fun found => ?_
  rw [List.append_nil]
  exact leads_map (leads_postfixed h honly old) fun _ _ hc => hc.signed found

theorem leads_chainOf (honly : OnlySites source) (old : List Node) :
    Leads (Told source old) (ChainRead source old) (chainOf inner) := by
  refine leads_bind (leads_operand h honly true old) fun first => ?_
  have hstep : ∀ chain, Leads (ChainRead source old chain) (ChainRead source old)
      (chainStep inner chain) := by
    intro chain
    refine leads_bind (B := fun _ => Told source (old ++ chain.nodes)) ?_ fun joint => ?_
    · exact (tells_joint chain.nodes old).weaken (fun _ hc => hc.told) fun _ _ hc => hc
    · refine leads_map (leads_operand h honly _ (old ++ chain.nodes)) fun next c hc => ⟨?_, ?_⟩
      · rw [Chain.nodes_snoc, ← List.append_assoc]
        exact hc.told
      · rw [Chain.last_snoc]
        exact hc.ready
  exact (leads_loop (B := ChainRead source old) (Chain.single first) hstep).weaken
    (fun _ hc => ⟨hc.told, hc.ready⟩) fun _ _ hc => hc

theorem tells_program : Tells source [] (fun nodes => nodes) (program inner) := by
  have hnodes : Tells source [] (fun nodes => nodes) (do
      let nodes ← statements inner
      separator?
      return nodes) :=
    tells_bind (tells_statements h) fun _ => tells_map (tells_separator? _) fun _ => Covers.refl _
  exact tells_bind (tells_separator? []) fun _ => tells_map
    (tells_optional (fun nodes => nodes.getD []) hnodes (fun _ => Covers.refl _) (Covers.refl []))
    fun _ => Covers.refl _

end Nested

theorem nested_tell (honly : OnlySites source) (depth : Nat) : (nested depth).Tell source := by
  induction depth with
  | zero => exact ⟨fun _ => leads_fail, tells_fail, blocked_nested 0⟩
  | succ depth ih => exact ⟨leads_chainOf ih honly, tells_blockOf ih, blocked_nested _⟩

/-- The nodes that a source is read as mention every site, and have no markers but those of sites. -/
theorem readProgram_told (honly : OnlySites source) :
    ∀ way ∈ (readProgram source).found, Told source way.1 way.2 := by
  intro way hw
  obtain ⟨hstands, hpassed⟩ := start_stands source
  have hstart : Told source [] (Cursor.start source).skipIgnored :=
    ⟨fun _ hn => (List.not_mem_nil hn).elim, hstands, fun site hp => absurd hp (hpassed site)⟩
  exact (tells_program (nested_tell honly _)).leads [] _ hstart way hw

/-- The tree of a source mentions every site, and has no markers but those of sites. -/
theorem parse_mentions (text file : String) (node : Node) (honly : OnlySites text.toList)
    (h : (parse text file).value = .ok node) :
    Genuine text.toList node ∧ ∀ site : Site text.toList, node.Mentions site.line := by
  unfold parse at h
  dsimp only at h
  split at h
  · rename_i nodes c hfound
    have htold := readProgram_told honly (nodes, c) (List.mem_of_find?_eq_some hfound)
    have hrest : c.rest = [] := by simpa using List.find?_some hfound
    split at h
    · rename_i hfault
      cases h
      have hblock := htold.covers (covers_block nodes)
      refine ⟨hblock.genuine _ (List.mem_singleton_self _), fun site => ?_⟩
      have hpassed : site.Passed c := by
        refine ⟨?_, hfault⟩
        rw [htold.stands.placed.inside.offset_of_rest hrest]
        exact site.paren_lt_length
      obtain ⟨other, ho, hm⟩ := hblock.passed site hpassed
      rwa [List.mem_singleton.mp ho] at hm
    · cases h
  · split at h
    · cases h
    · cases h

end LineScope.Grammar
