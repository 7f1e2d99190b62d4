import LineScope.Grammar.Expression
import LineScope.Proofs.Grammar.Rule

/-!
# In front of a closing parenthesis

A cursor in front of a closing parenthesis is shut: neither an expression nor a block starts there,
so a call that ends there gets no more arguments.
-/

namespace LineScope.Grammar

open Rule

variable {α β : Type}

/-- A cursor in front of a closing parenthesis. -/
def Cursor.Shut (c : Cursor) : Prop := c.rest.head? = some ')'

/-- A rule that reads nothing in front of a closing parenthesis. -/
def Blocked (rule : Rule α) : Prop := Leads Cursor.Shut (fun _ _ => False) rule

theorem blocked_token (terminal : Terminal) (h : ∀ before cs, terminal before (')' :: cs) = none) :
    Blocked (token terminal) := by
  intro c hc way hw
  obtain ⟨cs, hcs⟩ : ∃ cs, c.rest = ')' :: cs := List.head?_eq_some_iff.mp hc
  rw [Rule.token, hcs, h] at hw
  cases hw

theorem blocked_bind {p : Rule α} {f : α → Rule β} (hp : Blocked p) : Blocked (p >>= f) :=
  leads_bind hp fun _ _ hc => hc.elim

theorem blocked_map {p : Rule α} {f : α → β} (hp : Blocked p) : Blocked (f <$> p) :=
  leads_map hp fun _ _ hc => hc

/-- What need not be read stays unread in front of a closing parenthesis. -/
theorem blocked_behind {p : Rule α} {f : α → Rule β} (hp : Leads Cursor.Shut (fun _ => Cursor.Shut) p)
    (hf : ∀ a, Blocked (f a)) : Blocked (p >>= f) :=
  leads_bind hp hf

theorem Blocked.shut {p : Rule α} (hp : Blocked p) : Leads Cursor.Shut (fun _ => Cursor.Shut) p :=
  hp.behind fun _ _ hc => hc.elim

/-! ### Operands -/

theorem blocked_decoded (terminal : Terminal) (kind : String)
    (decode : String → Except DecodeError α) (node : α → Nat → Node)
    (h : ∀ before cs, terminal before (')' :: cs) = none) :
    Blocked (decoded terminal kind decode node) :=
  blocked_bind (blocked_token terminal h)

theorem blocked_literal (terminal : Terminal) (value : String → Literal)
    (h : ∀ before cs, terminal before (')' :: cs) = none) : Blocked (literal terminal value) :=
  blocked_map (blocked_token terminal h)

theorem blocked_literals : ∀ rule ∈ literals, Blocked rule := by
  intro rule hr
  simp only [literals, List.mem_cons, List.not_mem_nil, or_false] at hr
  rcases hr with rfl | rfl | rfl | rfl | rfl | rfl | rfl | rfl | rfl | rfl | rfl | rfl | rfl
  all_goals first
    | exact blocked_decoded _ _ _ _ fun _ _ => rfl
    | exact blocked_literal _ _ fun _ _ => rfl

theorem blocked_groupParen : Blocked (token Terminal.groupParen) := by
  refine blocked_token _ fun before cs => ?_
  unfold Terminal.groupParen
  split
  · rfl
  · rfl

theorem blocked_listBracket : Blocked (token Terminal.listBracket) := by
  refine blocked_token _ fun before cs => ?_
  unfold Terminal.listBracket
  split
  · rfl
  · rfl

theorem blocked_name : Blocked (token Terminal.name) := blocked_token _ fun _ _ => rfl

theorem blocked_closedTerms (inner : Nested) : ∀ rule ∈ closedTerms inner, Blocked rule := by
  intro rule hr
  rcases List.mem_append.mp hr with hr | hr
  · exact blocked_literals rule hr
  · simp only [List.mem_cons, List.not_mem_nil, or_false] at hr
    rcases hr with rfl | rfl | rfl | rfl | rfl | rfl | rfl | rfl
    · exact leads_either (blocked_bind (blocked_token _ fun _ _ => rfl)) (blocked_bind blocked_name)
    · exact blocked_bind blocked_groupParen
    · exact blocked_bind blocked_listBracket
    · exact blocked_bind (blocked_token _ fun _ _ => rfl)
    · exact blocked_bind (blocked_token _ fun _ _ => rfl)
    · exact blocked_bind (blocked_token _ fun _ _ => rfl)
    · exact blocked_bind (blocked_token _ fun _ _ => rfl)
    · exact blocked_bind (blocked_token _ fun _ _ => rfl)

theorem blocked_primary (inner : Nested) : Blocked (primary inner) := by
  refine leads_preferred (leads_choice _ fun rule hr => ?_)
  rcases List.mem_append.mp hr with hr | hr
  · simp only [List.mem_cons, List.not_mem_nil, or_false] at hr
    rcases hr with rfl | rfl
    · exact blocked_bind blocked_name
    · exact blocked_bind (blocked_token _ fun _ _ => rfl)
  · obtain ⟨closed, hc, rfl⟩ := List.mem_map.mp hr
    exact blocked_map (blocked_closedTerms inner closed hc)

theorem blocked_operand (inner : Nested) (takesCapture : Bool) :
    Blocked (operand inner takesCapture) := by
  have hline : Leads Cursor.Shut (fun _ => Cursor.Shut) Rule.line := by
    intro c hc way hw
    rw [List.mem_singleton.mp hw]
    exact hc
  have hcaptures : Leads Cursor.Shut (fun _ => Cursor.Shut) (captureSigns takesCapture) := by
    cases takesCapture with
    | true =>
      exact leads_loop (B := fun _ => Cursor.Shut) [] fun _ =>
        (blocked_bind (blocked_token _ fun _ _ => rfl)).shut
    | false => exact leads_pure _ fun _ hc => hc
  have hsigns : Leads Cursor.Shut (fun _ => Cursor.Shut) signs :=
    leads_loop (B := fun _ => Cursor.Shut) [] fun _ => (blocked_bind
      (leads_either (blocked_token _ fun _ _ => rfl) (blocked_token _ fun _ _ => rfl))).shut
  exact blocked_behind hcaptures fun _ => blocked_behind hsigns fun _ =>
    blocked_bind (blocked_behind hline fun _ => blocked_bind (blocked_primary inner))

/-! ### Nested code -/

theorem blocked_chainOf (inner : Nested) : Blocked (chainOf inner) :=
  blocked_bind (blocked_operand inner true)

theorem blocked_blockOf (inner : Nested) : Blocked (blockOf inner) :=
  blocked_bind (blocked_token _ fun _ _ => rfl)

/-- Nested code does not start in front of a closing parenthesis. -/
structure Nested.Blocked (inner : Nested) : Prop where
  chain : Grammar.Blocked inner.chain
  block : Grammar.Blocked inner.block

theorem blocked_nested (depth : Nat) : (nested depth).Blocked := by
  cases depth with
  | zero => exact ⟨leads_fail, leads_fail⟩
  | succ depth => exact ⟨blocked_chainOf _, blocked_blockOf _⟩

theorem blocked_items (inner : Nested) {first : Rule Node} (hf : Blocked first)
    (more : Rule Node) : Blocked (items inner first more) := by
  have hkeyword : Blocked (keywordEntry inner) := blocked_bind (blocked_token _ fun _ _ => rfl)
  exact leads_either (blocked_bind (blocked_bind hf)) (blocked_map (blocked_bind hkeyword))

section Nested

variable {inner : Nested} (h : inner.Blocked)

include h

theorem blocked_callFrom (needsBlock : Bool) (form : Form) :
    Blocked (callFrom inner needsBlock form) := by
  cases form with
  | callee callee =>
    have hexpression : Blocked (expression inner) := blocked_map h.chain
    exact leads_either (blocked_bind (blocked_map (blocked_items inner hexpression _)))
      (blocked_map h.block)
  | invoked callee args => exact blocked_map h.block
  | _ => exact leads_fail

theorem blocked_argument : Blocked (argument inner) :=
  leads_branch _ h.chain fun _ _ _ _ hc => hc.elim

end Nested

end LineScope.Grammar
