import LineScope.Grammar.Parse
import LineScope.Proofs.Grammar.Written
import Mathlib.Data.List.Find

/-!
# Written expressions are read back

A written expression can be read in many ways: in front of a sign, a name may be a call with an
argument.  All ways come to stand behind some operand outside parentheses, and only one of those that
come to the end is preferred: the chain of all operands.  So parsing gives the tree that was written.
-/

namespace LineScope.Grammar

open Rule Terminal

/-! ### Behind an operand -/

/-- What may stand behind an expression: nothing, or a closing parenthesis. -/
def ClosedTail (tail : List Char) : Prop := tail = [] ∨ ∃ cs, tail = ')' :: cs

/-- The blank in front of links. -/
def gap : List Link → List Char
  | [] => []
  | _ :: _ => [' ']

/-- The text of links behind the blank in front of them, and the tail. -/
def behindText (tail : List Char) : List Link → List Char
  | [] => tail
  | link :: links => link.1.val.front (link.2.chars ++ (links.flatMap Link.chars ++ tail))

def LinksWithin (bound : Nat) (links : List Link) : Prop :=
  ∀ link ∈ links, link.2.chars.length ≤ bound

theorem flatMap_chars (tail : List Char) (links : List Link) :
    links.flatMap Link.chars ++ tail = gap links ++ behindText tail links := by
  cases links with
  | nil => rfl
  | cons link links => simp [gap, behindText, Link.chars, Operator.front]

theorem length_links_le (tail : List Char) (links : List Link) :
    links.length ≤ (behindText tail links).length := by
  have hall : ∀ links : List Link, links.length ≤ (links.flatMap Link.chars).length := by
    intro links
    induction links with
    | nil => exact Nat.le_refl _
    | cons link links ih =>
      simp only [List.flatMap_cons, List.length_append, List.length_cons, Link.chars]
      omega
  cases links with
  | nil => exact Nat.zero_le _
  | cons link links =>
    have hrest := hall links
    simp only [behindText, Operator.front, List.length_append, List.length_cons]
    omega

section Tail

variable {tail : List Char} (htail : ClosedTail tail)

include htail

theorem endsWord_links (links : List Link) : EndsWord (links.flatMap Link.chars ++ tail) := by
  intro c hc
  cases links with
  | nil =>
    rcases htail with rfl | ⟨cs, rfl⟩
    · cases hc
    · exact .inr (Option.some.inj hc).symm
  | cons link links => exact .inl (Option.some.inj hc).symm

theorem past_behindText (links : List Link) : Past (behindText tail links) := by
  cases links with
  | nil =>
    rcases htail with rfl | ⟨cs, rfl⟩
    · exact past_nil
    · exact past_paren cs
  | cons link links => exact past_operator _ _ link.1.property

theorem ahead_links (leaf : Leaf) (links : List Link) :
    Ahead (leaf.chars ++ (links.flatMap Link.chars ++ tail)) :=
  ahead_leaf _ leaf (endsWord_links htail links)

/-- Behind an operand stand the blank and the operator of the next link, or the tail. -/
theorem stops_links (front : List Char) (links : List Link) :
    Stops front (links.flatMap Link.chars ++ tail) (front ++ gap links) (behindText tail links) := by
  have hpast := past_behindText htail links
  refine ⟨endsWord_links htail links, ?_, hpast⟩
  rw [flatMap_chars]
  cases links with
  | nil =>
    rw [gap, List.nil_append, List.append_nil]
    exact Cursor.skipIgnored_behind front _ hpast.solid
  | cons link links => exact Cursor.skipIgnored_blank front _ hpast.solid

theorem at?_tail : Operator.at? tail = none := by
  rcases htail with rfl | ⟨cs, rfl⟩ <;> rfl

theorem sign_tail (before : Option Char) : sign before tail = none := by
  rcases htail with rfl | ⟨cs, rfl⟩ <;> rfl

end Tail

/-! ### The chain of all operands -/

section Chains

variable {inner : Nested} {bound : Nat} (hinner : inner.ReadsGroups bound) {tail : List Char}
  (htail : ClosedTail tail)

/-- The text in front of a link and what is read of the link. -/
def linkFront (front : List Char) (link : Link) (links : List Link) : List Char :=
  front ++ link.1.val.text.toList ++ [' '] ++ link.2.chars ++ gap links

theorem linkFront_append (tail front : List Char) (link : Link) (links : List Link) :
    linkFront front link links ++ behindText tail links =
      front ++ behindText tail (link :: links) := by
  rw [behindText.eq_2, flatMap_chars]
  simp [linkFront, Operator.front]

/-- The ways of a chain along links: it may end in front of each of them. -/
def chainWays (tail : List Char) : Chain → List Char → List Link → List (Chain × Cursor)
  | chain, front, [] => [(chain, .behind front tail)]
  | chain, front, link :: links =>
    (chain, .behind front (behindText tail (link :: links))) ::
      chainWays tail (chain.snoc link.step.1 link.step.2) (linkFront front link links) links

section Steps

include hinner htail

theorem reads_chainStep (chain : Chain) (front : List Char) (link : Link) (links : List Link)
    (hlink : link.2.chars.length ≤ bound) :
    Reads (chainStep inner chain) (.behind front (behindText tail (link :: links)))
      (chain.snoc link.step.1 link.step.2)
      (.behind (linkFront front link links) (behindText tail links)) := by
  have hjoint := reads_joint link.1 front _ (ahead_links htail link.2 links)
  have hfront : (front ++ link.1.val.text.toList ++ [' ']).getLast?.any takesArguments = false := by
    rw [List.getLast?_concat]
    rfl
  have hoperand := reads_operand inner _ _ bound hinner link.2 hlink hfront _ _
    (stops_links htail _ links) link.1.val.level.takesCapture
  exact hjoint.bind (hoperand.bind (reads_pure _ _))

omit hinner in
theorem idle_chainStep (chain : Chain) (front : List Char) :
    Idle (chainStep inner chain) (.behind front tail) :=
  (idle_joint front tail (past_behindText htail []).toQuietAt (at?_tail htail)).bind

theorem found_iterate (links : List Link) (hlinks : LinksWithin bound links) (chain : Chain)
    (front : List Char) (n : Nat) (hn : links.length ≤ n) :
    (iterate (chainStep inner) n chain (.behind front (behindText tail links))).found =
      chainWays tail chain front links := by
  induction links generalizing chain front n with
  | nil =>
    cases n with
    | zero => rfl
    | succ n => exact (reads_pure chain _).either (idle_chainStep htail chain front).bind
  | cons link links ih =>
    obtain ⟨m, rfl⟩ : ∃ m, n = m + 1 := ⟨n - 1, by simp only [List.length_cons] at hn; omega⟩
    have hstep := reads_chainStep hinner htail chain front link links
      (hlinks link List.mem_cons_self)
    have hrest := ih (fun other ho => hlinks other (List.mem_cons_of_mem _ ho))
      (chain.snoc link.step.1 link.step.2) (linkFront front link links) m (by simpa using hn)
    exact congrArg (_ :: ·) (hstep.found_bind.trans hrest)

/-- At the front of an expression, a chain has as many ways as the expression has operands outside
parentheses. -/
theorem found_chainOf (leaf : Leaf) (links : List Link) (hleaf : leaf.chars.length ≤ bound)
    (hlinks : LinksWithin bound links) (front : List Char)
    (hfront : front.getLast?.any takesArguments = false) :
    (chainOf inner (.behind front (leaf.chars ++ (links.flatMap Link.chars ++ tail)))).found =
      chainWays tail (.single leaf.operand) (front ++ leaf.chars ++ gap links) links := by
  have hoperand := reads_operand inner front _ bound hinner leaf hleaf hfront _ _
    (stops_links htail _ links) true
  exact hoperand.found_bind.trans
    (found_iterate hinner htail links hlinks _ _ _ (length_links_le tail links))

end Steps

/-- Of the ways of a chain, the one to the end holds all links. -/
theorem find?_chainWays (links : List Link) (chain : Chain) (front whole : List Char)
    (hwhole : front ++ behindText tail links = whole ++ tail) :
    (chainWays tail chain front links).find? (fun way => way.2.offset == whole.length) =
      some (⟨chain.first, chain.rest ++ links.map Link.step⟩, .behind whole tail) := by
  induction links generalizing chain front with
  | nil =>
    obtain rfl : front = whole := List.append_cancel_right hwhole
    simp [chainWays, Cursor.behind]
  | cons link links ih =>
    have hlength := congrArg List.length hwhole
    have hlonger : tail.length < (behindText tail (link :: links)).length := by
      simp only [behindText, Operator.front, List.length_append, List.length_cons]
      omega
    have hne : front.length ≠ whole.length := by
      simp only [List.length_append] at hlength
      omega
    have hrest := ih (chain.snoc link.step.1 link.step.2) (linkFront front link links)
      ((linkFront_append tail front link links).trans hwhole)
    rw [chainWays, List.find?_cons]
    have hoffset : (Cursor.behind front (behindText tail (link :: links))).offset = front.length := rfl
    simp only [hoffset, beq_eq_false_iff_ne.mpr hne, hrest]
    simp [Chain.snoc]

end Chains

/-! ### Where other ways lead -/

/-- A cursor behind an operand of a text and the blank that follows it. -/
def BehindOperand (text tail : List Char) (bound : Nat) (c : Cursor) : Prop :=
  ∃ front links, c = .behind front (behindText tail links) ∧
    front ++ behindText tail links = text ∧ LinksWithin bound links

def AtOperand (text tail : List Char) (bound : Nat) (c : Cursor) : Prop :=
  ∃ (front : List Char) (leaf : Leaf) (links : List Link),
    c = .behind front (leaf.chars ++ (links.flatMap Link.chars ++ tail)) ∧
    front ++ (leaf.chars ++ (links.flatMap Link.chars ++ tail)) = text ∧
      front.getLast?.any takesArguments = false ∧ leaf.chars.length ≤ bound ∧
        LinksWithin bound links

section Positions

variable {text tail : List Char} {bound : Nat} (htail : ClosedTail tail)

include htail

theorem BehindOperand.past {c : Cursor} (h : BehindOperand text tail bound c) :
    ∃ front rest, c = .behind front rest ∧ Past rest := by
  obtain ⟨front, links, rfl, -, -⟩ := h
  exact ⟨front, _, rfl, past_behindText htail links⟩

theorem AtOperand.ahead {c : Cursor} (h : AtOperand text tail bound c) :
    ∃ front rest, c = .behind front rest ∧ Ahead rest := by
  obtain ⟨front, leaf, links, rfl, -⟩ := h
  exact ⟨front, _, rfl, ahead_links htail leaf links⟩

theorem leads_of_past {α : Type} {p : Rule α} {B : α → Cursor → Prop}
    (h : ∀ front rest, Past rest → Idle p (.behind front rest)) :
    Leads (BehindOperand text tail bound) B p := by
  intro c hc way hw
  obtain ⟨front, rest, rfl, hpast⟩ := hc.past htail
  exact (h front rest hpast).elim hw

theorem leads_of_ahead {α : Type} {p : Rule α} {B : α → Cursor → Prop}
    (h : ∀ front rest, Ahead rest → Idle p (.behind front rest)) :
    Leads (AtOperand text tail bound) B p := by
  intro c hc way hw
  obtain ⟨front, rest, rfl, hahead⟩ := hc.ahead htail
  exact (h front rest hahead).elim hw

omit htail in
/-- Behind the operator of a link and a blank stands the operand of the link. -/
theorem atOperand_link (front : List Char) (link : Link) (links : List Link)
    (htext : front ++ behindText tail (link :: links) = text)
    (hlinks : LinksWithin bound (link :: links)) :
    AtOperand text tail bound (.behind (front ++ link.1.val.text.toList ++ [' '])
      (link.2.chars ++ (links.flatMap Link.chars ++ tail))) := by
  refine ⟨_, link.2, links, rfl, ?_, ?_, hlinks link List.mem_cons_self,
    fun other ho => hlinks other (List.mem_cons_of_mem _ ho)⟩
  · rw [← htext]
    simp [behindText, Operator.front]
  · rw [List.getLast?_concat]
    rfl

/-- A sign that starts behind an operand is the operator there, with the next operand behind it. -/
theorem ends_sign : Leads (BehindOperand text tail bound) (fun _ => AtOperand text tail bound)
    (token sign) := by
  rintro c ⟨front, links, rfl, htext, hlinks⟩ way hw
  cases links with
  | nil => exact (idle_token sign front tail (sign_tail htail)).elim hw
  | cons link links =>
    have hahead := ahead_links htail link.2 links
    rcases sign_operator (link.2.chars ++ (links.flatMap Link.chars ++ tail)) link.1.val
      link.1.property with hsign | hsign
    · exact (idle_token sign front _ hsign).elim hw
    · have hread := reads_token sign front link.1.val.text.toList _ (hsign _)
        (newline_notMem_operator _ link.1.property)
      rw [Cursor.skipIgnored_blank _ _ hahead.solid] at hread
      rw [hread.eq_of_mem hw]
      exact atOperand_link front link links htext hlinks

end Positions

/-! ### Chains and statements behind an operand -/

section Nested

variable {inner : Nested} {text tail : List Char} {bound : Nat}
  (hinner : inner.ReadsGroups bound) (htail : ClosedTail tail)

include hinner htail

/-- Behind an operand, another operand starts only where the operator there is a sign. -/
theorem ends_operand (takesCapture : Bool) :
    Leads (fun c => BehindOperand text tail bound c ∨ AtOperand text tail bound c)
      (fun _ c => BehindOperand text tail bound c) (operand inner takesCapture) := by
  let A (c : Cursor) := BehindOperand text tail bound c ∨ AtOperand text tail bound c
  have hcaptures : Leads A (fun _ c => A c) (captureSigns takesCapture) := by
    rintro c (hc | hc) way hw
    · obtain ⟨front, rest, rfl, hpast⟩ := hc.past htail
      rw [(reads_captureSigns front rest hpast.toQuietAt takesCapture).eq_of_mem hw]
      exact .inl hc
    · obtain ⟨front, rest, rfl, hahead⟩ := hc.ahead htail
      rw [(reads_captureSigns front rest hahead.toQuietAt takesCapture).eq_of_mem hw]
      exact .inr hc
  have hnot : Leads A (fun _ c => A c) (token (keyword "not")) :=
    leads_or (leads_of_past htail fun front rest h => idle_not front rest h.toQuietAt)
      (leads_of_ahead htail fun front rest h => idle_not front rest h.toQuietAt)
  have hsign : Leads A (fun _ c => A c) (token sign) :=
    leads_or ((ends_sign htail).behind fun _ _ => .inr)
      (leads_of_ahead htail fun front rest h => idle_token sign front rest h.sign)
  have hsigns : Leads A (fun _ c => A c) signs :=
    leads_loop (B := fun _ => A) [] fun _ => leads_bind (leads_either hsign hnot) fun _ =>
      leads_pure _ fun _ hc => hc
  have hpostfixed : Leads A (fun _ c => BehindOperand text tail bound c) (postfixed inner) := by
    refine leads_or (leads_of_past htail (idle_postfixed inner)) ?_
    rintro c ⟨front, leaf, links, rfl, htext, hfront, hleaf, hlinks⟩ way hw
    have hread := reads_postfixed inner front _ bound hinner leaf hleaf hfront _ _
      (stops_links htail _ links)
    rw [hread.eq_of_mem hw]
    refine ⟨_, links, rfl, ?_, hlinks⟩
    rw [← htext, flatMap_chars]
    simp
  exact leads_bind hcaptures fun _ => leads_bind hsigns fun _ => leads_bind hpostfixed fun _ =>
    leads_pure _ fun _ hc => hc

theorem ends_chainOf :
    Leads (fun c => BehindOperand text tail bound c ∨ AtOperand text tail bound c)
      (fun _ c => BehindOperand text tail bound c) (chainOf inner) := by
  have hjoint : Leads (BehindOperand text tail bound) (fun _ c => AtOperand text tail bound c)
      joint := by
    rintro c ⟨front, links, rfl, htext, hlinks⟩ way hw
    cases links with
    | nil =>
      exact (idle_joint front tail (past_behindText htail []).toQuietAt (at?_tail htail)).elim hw
    | cons link links =>
      rw [(reads_joint link.1 front _ (ahead_links htail link.2 links)).eq_of_mem hw]
      exact atOperand_link front link links htext hlinks
  have hstep : ∀ chain, Leads (BehindOperand text tail bound)
      (fun _ c => BehindOperand text tail bound c) (chainStep inner chain) := by
    refine fun chain => leads_bind hjoint fun joint => ?_
    refine leads_bind (B := fun _ => BehindOperand text tail bound) ?_ fun _ =>
      leads_pure _ fun _ hc => hc
    exact (ends_operand hinner htail _).weaken (fun _ => .inr) fun _ _ hc => hc
  exact leads_bind (ends_operand hinner htail true) fun _ =>
    leads_loop (B := fun _ => BehindOperand text tail bound) _ hstep

theorem ends_expression : Leads (BehindOperand text tail bound)
    (fun _ c => BehindOperand text tail bound c)
    (expression ⟨chainOf inner, blockOf inner⟩) := by
  refine leads_map (B := fun _ => BehindOperand text tail bound) ?_ fun _ _ hc => hc
  exact (ends_chainOf hinner htail).weaken (fun _ => .inl) fun _ _ hc => hc

theorem ends_callFrom (needsBlock : Bool) (form : Form) :
    Leads (BehindOperand text tail bound) (fun _ c => BehindOperand text tail bound c)
      (callFrom ⟨chainOf inner, blockOf inner⟩ needsBlock form) := by
  let outer : Nested := ⟨chainOf inner, blockOf inner⟩
  let B (c : Cursor) := BehindOperand text tail bound c
  have hblock : ∀ f : Node → Node, Leads B (fun _ => B) (f <$> outer.block) := by
    intro f
    refine leads_map (B := fun _ => B) (leads_of_past htail fun front rest h => ?_) fun _ _ hc => hc
    exact idle_blockOf inner front rest h.toQuietAt
  have hcomma : ∀ {α : Type} (f : Token → Rule α), Leads B (fun _ => B) (comma >>= f) := by
    intro α f
    exact leads_of_past htail fun front rest h => (idle_comma front rest h.toQuietAt).bind
  have hlist : Leads B (fun _ => B) (commaList (expression outer) (expression outer)) :=
    leads_bind (ends_expression hinner htail) fun _ => leads_map (leads_ordered _
      (leads_loop (B := fun _ => B) _ fun _ => hcomma _)) fun _ _ hc => hc
  have hitems : Leads B (fun _ => B) (items outer (expression outer) (expression outer)) := by
    refine leads_either (leads_bind hlist fun _ => ?_)
      (leads_of_past htail (idle_keywordItems outer))
    exact leads_bind (leads_optional (hcomma _) (fun _ _ hc => hc) fun _ hc => hc)
      fun _ => leads_pure _ fun _ hc => hc
  cases form with
  | callee callee =>
    refine leads_either (leads_bind (leads_map hitems fun _ _ hc => hc) fun _ =>
      leads_either ?_ (hblock _)) (hblock _)
    cases needsBlock with
    | true => exact leads_fail
    | false => exact leads_pure _ fun _ hc => hc
  | invoked callee args => exact hblock _
  | _ => exact leads_fail

/-- Every way of a statement at an operand ends behind an operand. -/
theorem ends_statement : Leads (AtOperand text tail bound)
    (fun _ c => BehindOperand text tail bound c) (statement ⟨chainOf inner, blockOf inner⟩) := by
  have hchain : Leads (AtOperand text tail bound) (fun _ => BehindOperand text tail bound)
      (chainOf inner) :=
    (ends_chainOf hinner htail).weaken (fun _ => .inr) fun _ _ hc => hc
  have hcall : ∀ needsBlock form, Leads (BehindOperand text tail bound)
      (fun _ c => BehindOperand text tail bound c)
      (callFrom ⟨chainOf inner, blockOf inner⟩ needsBlock form) :=
    ends_callFrom hinner htail
  refine leads_preferred (leads_branch _ hchain ?_)
  simp only [statementWays, List.forall_mem_cons]
  refine ⟨fun chain => leads_pure _ fun _ hc => hc, fun chain => hcall false _, fun chain => ?_,
    fun chain => ?_, List.forall_mem_nil _⟩
  · unfold attributeFrom
    split
    · exact leads_bind (ends_expression hinner htail) fun _ => leads_pure _ fun _ hc => hc
    · exact leads_fail
  · unfold matchFrom
    split
    · exact leads_fail
    · exact leads_map (hcall false _) fun _ _ hc => hc

end Nested

/-! ### Expressions as statements -/

section Statements

variable {inner : Nested} {bound : Nat} (hinner : inner.ReadsGroups bound) {tail : List Char}
  (htail : ClosedTail tail) (e : Expr) (he : e.chars.length ≤ bound) (front : List Char)
  (hfront : front.getLast?.any takesArguments = false)

theorem length_leaf_le (e : Expr) : e.spine.first.chars.length ≤ e.chars.length ∧
    LinksWithin e.chars.length e.spine.links := by
  rw [chars_spine]
  refine ⟨by simp, fun link hlink => ?_⟩
  obtain ⟨before, after, hsplit⟩ := List.append_of_mem hlink
  rw [hsplit]
  simp only [List.flatMap_append, List.flatMap_cons, List.length_append, Link.chars,
    List.length_cons]
  omega

theorem chars_append (e : Expr) (tail : List Char) : e.chars ++ tail =
    e.spine.first.chars ++ (e.spine.links.flatMap Link.chars ++ tail) := by
  rw [chars_spine, List.append_assoc]

include htail in
theorem ahead_chars (e : Expr) : Ahead (e.chars ++ tail) := by
  rw [chars_append]
  exact ahead_links htail _ _

include he hfront in
theorem atOperand_chars :
    AtOperand (front ++ e.chars ++ tail) tail bound (.behind front (e.chars ++ tail)) := by
  obtain ⟨hfirst, hlinks⟩ := length_leaf_le e
  refine ⟨front, e.spine.first, e.spine.links, ?_, ?_, hfront, hfirst.trans he,
    fun link hl => (hlinks link hl).trans he⟩
  · rw [chars_append]
  · rw [List.append_assoc, chars_append]

/-- Behind an operand that is not the last one stands an operator. -/
theorem exists_operator_of_offset_ne {text : List Char} {c : Cursor}
    (h : BehindOperand (text ++ tail) tail bound c) (hoffset : c.offset ≠ text.length) :
    ∃ front op cs, op ∈ Operator.all ∧ c = .behind front (op.front cs) := by
  obtain ⟨front, links, rfl, htext, -⟩ := h
  cases links with
  | nil => exact absurd (congrArg List.length (List.append_cancel_right htext)) hoffset
  | cons link links => exact ⟨front, link.1.val, _, link.1.property, rfl⟩

include hinner htail he hfront

/-- Of the ways of a statement, the preferred one to the end is the expression. -/
theorem filter_statement :
    (statement ⟨chainOf inner, blockOf inner⟩ (.behind front (e.chars ++ tail))).found.filter
      (fun way => way.2.offset == (front ++ e.chars).length) =
        [(e.node, .behind (front ++ e.chars) tail)] := by
  obtain ⟨hfirst, hlinks⟩ := length_leaf_le e
  have hchain := found_chainOf hinner htail e.spine.first e.spine.links (hfirst.trans he)
    (fun link hl => (hlinks link hl).trans he) front hfront
  rw [← chars_append] at hchain
  have hwhole : front ++ e.spine.first.chars ++ gap e.spine.links ++
      behindText tail e.spine.links = front ++ e.chars ++ tail := by
    rw [List.append_assoc front e.chars, chars_append, flatMap_chars]
    simp
  have hend := find?_chainWays e.spine.links (.single e.spine.first.operand) _ _ hwhole
  rw [← hchain] at hend
  have hbranch : (branch (chainOf inner) (statementWays ⟨chainOf inner, blockOf inner⟩)
      (.behind front (e.chars ++ tail))).found =
        ((chainOf inner (.behind front (e.chars ++ tail))).found.map
          fun way => (way.1.node, way.2)) ++ _ :=
    (found_branch _ _).trans (congrArg (· ++ _) (found_map (chainOf inner) Chain.node _))
  show (firstPerEnd (branch _ _ _).found).filter _ = _
  -- the chain is the first alternative of a statement, so its way to the end stands in front
  have hfind : ((chainOf inner (.behind front (e.chars ++ tail))).found.map
      fun way => (way.1.node, way.2)).find?
        (fun way => way.2.offset == (front ++ e.chars).length) =
      some (e.node, .behind (front ++ e.chars) tail) := by
    rw [List.find?_map, ← node_chain_spine e]
    exact congrArg (Option.map _) hend
  rw [filter_firstPerEnd, hbranch, List.find?_append, hfind]
  rfl

/-- A single expression is read as a list of one statement. -/
theorem found_statements :
    (statements ⟨chainOf inner, blockOf inner⟩ (.behind front (e.chars ++ tail))).found =
      (statement ⟨chainOf inner, blockOf inner⟩ (.behind front (e.chars ++ tail))).found.map
        fun way => ([way.1], way.2) := by
  have hleads := ends_statement hinner htail _ (atOperand_chars e he front hfront)
  rw [statements, found_bind, List.map_eq_flatMap]
  refine List.flatMap_congr fun way hway => ?_
  obtain ⟨front', rest, hc, hpast⟩ := (hleads way hway).past htail
  rw [hc]
  exact reads_loop (idle_separator front' rest hpast.toQuietAt).bind

theorem filter_statements :
    (statements ⟨chainOf inner, blockOf inner⟩ (.behind front (e.chars ++ tail))).found.filter
      (fun way => way.2.offset == (front ++ e.chars).length) =
        [([e.node], .behind (front ++ e.chars) tail)] := by
  rw [found_statements hinner htail e he front hfront, List.filter_map]
  exact congrArg (List.map _) (filter_statement hinner htail e he front hfront)

theorem ends_statements :
    ∀ way ∈ (statements ⟨chainOf inner, blockOf inner⟩ (.behind front (e.chars ++ tail))).found,
      BehindOperand (front ++ e.chars ++ tail) tail bound way.2 := by
  rw [found_statements hinner htail e he front hfront]
  intro way hway
  obtain ⟨first, hfirst, rfl⟩ := List.mem_map.mp hway
  exact ends_statement hinner htail _ (atOperand_chars e he front hfront) first hfirst

end Statements

/-! ### Expressions in parentheses -/

theorem readsGroups_succ (inner : Nested) (bound : Nat) (hinner : inner.ReadsGroups bound) :
    Nested.ReadsGroups ⟨chainOf inner, blockOf inner⟩ (bound + 1) := by
  intro e front rest hbound hfront
  have htail : ClosedTail (')' :: rest) := .inr ⟨rest, rfl⟩
  have he : e.chars.length ≤ bound := by
    simp only [Leaf.chars, List.length_append, List.length_cons] at hbound
    omega
  have hahead := ahead_chars htail e
  have hinside : (front ++ ['(']).getLast?.any takesArguments = false := by
    rw [List.getLast?_concat]
    rfl
  have hopening := reads_token groupParen front ['('] (e.chars ++ ')' :: rest)
    (by rw [groupParen, hfront]; rfl) (by decide)
  rw [Cursor.skipIgnored_behind _ _ hahead.solid] at hopening
  have hclosing := reads_token (fixed ")") (front ++ ['('] ++ e.chars) [')'] rest rfl (by decide)
  have hseparator := reads_separator? (front ++ ['('] ++ e.chars) (')' :: rest)
    (past_paren rest).toQuietAt
  -- the ways that stop too early stand in front of an operator, where no parenthesis closes
  have hstatements := found_bind_of_end
    (f := fun nodes => separator? >>= fun _ => token (fixed ")") >>= fun _ => pure (Node.block nodes))
    (front ++ ['('] ++ e.chars).length (filter_statements hinner htail e he (front ++ ['(']) hinside)
    (fun way hway hoffset => by
      obtain ⟨front', op, cs, hop, hc⟩ := exists_operator_of_offset_ne
        (ends_statements hinner htail e he (front ++ ['(']) hinside way hway) hoffset
      rw [hc]
      refine (reads_separator? front' _ (past_operator cs op hop).toQuietAt).bind_idle (Idle.bind ?_)
      exact idle_token _ _ _ fun _ => (names_operator cs op hop).2.2.2.1)
  have hread := hstatements.trans
    (hseparator.bind (hclosing.bind (reads_pure (Node.block [e.node]) _)))
  have htext : (Leaf.group e).chars ++ rest = ['('] ++ (e.chars ++ ')' :: rest) := by
    simp [Leaf.chars]
  have hbehind : front ++ (Leaf.group e).chars = front ++ ['('] ++ e.chars ++ [')'] := by
    simp [Leaf.chars]
  rw [htext, hbehind]
  exact hopening.bind ((reads_separator? _ _ hahead.toQuietAt).bind hread)

theorem readsGroups_nested (depth : Nat) : (nested depth).ReadsGroups depth := by
  induction depth with
  | zero =>
    intro e front rest hbound
    simp [Leaf.chars] at hbound
  | succ depth ih => exact readsGroups_succ (nested depth) depth ih

/-! ### Sources -/

theorem isEmpty_rest {text : List Char} {bound : Nat} {c : Cursor}
    (h : BehindOperand (text ++ []) [] bound c) : c.rest.isEmpty = (c.offset == text.length) := by
  obtain ⟨front, links, rfl, htext, -⟩ := h
  have hlength := congrArg List.length htext
  simp only [List.length_append, List.length_nil, Nat.add_zero] at hlength
  rw [Bool.eq_iff_iff, List.isEmpty_iff_length_eq_zero, beq_iff_eq]
  simp only [Cursor.behind]
  omega

/-- Of the ways of a program, the preferred one to the end is the expression. -/
theorem complete?_program (inner : Nested) (e : Expr)
    (hinner : inner.ReadsGroups e.chars.length) :
    complete? (program ⟨chainOf inner, blockOf inner⟩ (.behind [] e.chars)).found =
      some ([e.node], .behind e.chars []) := by
  have htail : ClosedTail [] := .inl rfl
  have hchars : e.chars ++ [] = e.chars := List.append_nil _
  have hfilter := filter_statements hinner htail e (Nat.le_refl _) [] rfl
  have hleads := ends_statements hinner htail e (Nat.le_refl _) [] rfl
  have hahead := ahead_chars htail e
  rw [hchars] at hfilter hleads hahead
  -- no separator follows any way of the statements, so the optional one at the end adds none
  have hbody : ((statements ⟨chainOf inner, blockOf inner⟩ >>= fun nodes =>
      separator? >>= fun _ => pure nodes : Rule (List Node)) (.behind [] e.chars)).found =
        (statements ⟨chainOf inner, blockOf inner⟩ (.behind [] e.chars)).found := by
    rw [found_bind]
    refine Eq.trans (List.flatMap_congr fun way hway => ?_) (List.flatMap_singleton' _)
    obtain ⟨nodes, c⟩ := way
    obtain ⟨front, rest, rfl, hpast⟩ := (hleads _ hway).past htail
    exact (reads_separator? front rest hpast.toQuietAt).bind (reads_pure nodes _)
  have hfound : (program ⟨chainOf inner, blockOf inner⟩ (.behind [] e.chars)).found =
      (statements ⟨chainOf inner, blockOf inner⟩ (.behind [] e.chars)).found ++
        [([], .behind [] e.chars)] := by
    rw [program, (reads_separator? [] e.chars hahead.toQuietAt).found_bind, ← hbody]
    exact found_optional_getD _ _ _
  rw [complete?, hfound, List.find?_append,
    List.find?_congr fun way hway => isEmpty_rest (hleads way hway), ← List.head?_filter, hfilter]
  rfl

/-- A written expression is read back: parsing its text gives its code, with all operators and names
on the first line. -/
theorem parse_chars (e : Expr) (file : String) :
    parse (String.ofList e.chars) file = .quiet (.ok e.node) := by
  have hahead := ahead_chars (.inl rfl) e
  rw [List.append_nil] at hahead
  have hstart : (Cursor.start e.chars).skipIgnored = .behind [] e.chars :=
    Cursor.skipIgnored_behind [] e.chars hahead.solid
  have hcomplete := complete?_program (nested e.chars.length) e (readsGroups_nested _)
  unfold parse readProgram
  simp only [String.toList_ofList, hstart]
  rw [show nested (e.chars.length + 1) = ⟨chainOf (nested e.chars.length),
    blockOf (nested e.chars.length)⟩ from rfl, hcomplete]
  rfl

end LineScope.Grammar
