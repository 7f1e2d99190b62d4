import LineScope.Proofs.Node.Children
import LineScope.Proofs.Node.Term
import LineScope.Proofs.Number.DecimalText
import LineScope.Proofs.Number.Integer
import Mathlib

/-!
# Reading quoted code back

Quoted code shows everything there is to a node, in brackets, braces and separators that the texts
inside could take for their own.  As long as names and quoted characters stay clear of these, and
the texts of numbers tell the numbers apart, two nodes with one quoted text are the same node.
-/

namespace LineScope

open LineScope.Number

/-! ### Regular nodes -/

/-- A character that separates, quotes or encloses. -/
def isSpecial (c : Char) : Bool := c ∈ [',', ' ', '\'', '"', '[', ']', '{', '}']

/-- A name that has nothing in it that separates, quotes or encloses. -/
def IsPlainName (name : String) : Prop :=
  name ≠ "" ∧ ∀ c ∈ name.toList, isSpecial c = false

instance (name : String) : Decidable (IsPlainName name) :=
  inferInstanceAs (Decidable (name ≠ "" ∧ ∀ c ∈ name.toList, isSpecial c = false))

/-- What a literal may hold; `floats` are the floating-point numbers in use. -/
def Literal.IsRegular (floats : Set Binary64) : Literal → Prop
  | .atom name => IsPlainName name ∨ name = "\x7b\x7d"
  | .charlist value => '\'' ∉ value.toList
  | .float value => value ∈ floats
  | _ => True

namespace Node

/-- Whether a node is a call, of a name or of a computed head. -/
def isCall : Node → Bool
  | .call _ _ _ => true
  | .apply _ _ _ => true
  | _ => false

/-- The outermost form of a node as it is read from a source: calls have arguments, a computed head
is a call, and an identifier has no context. -/
def HasRegularForm (floats : Set Binary64) : Node → Prop
  | .call name args _ =>
    (IsPlainName name ∨ name = "\x7b\x7d" ∨ name = "%\x7b\x7d") ∧ args.isSome = true
  | .apply head args _ => head.isCall = true ∧ args.isSome = true
  | .literal value => value.IsRegular floats
  | .ident name _ context => IsPlainName name ∧ context = none
  | _ => True

/-- A node that is of a regular form throughout. -/
def IsRegular (floats : Set Binary64) (node : Node) : Prop :=
  ∀ part ∈ node.occurrences, part.HasRegularForm floats

variable {floats : Set Binary64}

theorem IsRegular.form {node : Node} (h : node.IsRegular floats) : node.HasRegularForm floats :=
  h node (self_mem_occurrences node)

theorem IsRegular.child {node child : Node} (h : node.IsRegular floats)
    (hc : child ∈ node.children) : child.IsRegular floats := fun part hp =>
  h part (mem_occurrences_of_mem_children node child part hc hp)

end Node

/-! ### Words -/

namespace Term

theorem isInitial_of_isDigit {c : Char} (h : c.isDigit = true) : isInitial c = true := by
  simp only [isInitial, isLetter, Bool.and_eq_true, bne_iff_ne]
  and_intros <;> rintro rfl <;> revert h <;> decide

theorem isInitial_of_isIntegral {c : Char} (h : isIntegral c = true) : isInitial c = true := by
  simp only [isIntegral, Bool.or_eq_true, beq_iff_eq] at h
  rcases h with h | rfl
  · exact isInitial_of_isDigit h
  · rfl

theorem isInitial_of_isDecimalMark {c : Char} (h : Binary64.isDecimalMark c = true) :
    isInitial c = true := by
  simp only [Binary64.isDecimalMark, Bool.or_eq_true, decide_eq_true_eq] at h
  rcases h with h | h
  · exact isInitial_of_isDigit h
  · have hmarks : ['.', 'e', '+', '-', 'i', 'n', 'f', 'a'].all isInitial = true := by decide
    exact List.all_eq_true.mp hmarks c h

theorem isLetter_of_isInitial {c : Char} (h : isInitial c = true) : isLetter c = true := by
  simp only [isInitial, Bool.and_eq_true] at h
  exact h.1.1.1

theorem isLetter_of_not_isSpecial {c : Char} (h : isSpecial c = false) : isLetter c = true := by
  simp only [isSpecial, decide_eq_false_iff_not, List.mem_cons, not_or] at h
  simp [isLetter, h]

theorem isWord_of_isInitial {letters : List Char} (hne : letters ≠ [])
    (h : ∀ c ∈ letters, isInitial c = true) : IsWord letters := by
  cases letters with
  | nil => exact absurd rfl hne
  | cons c cs =>
    refine ⟨c, cs, [], by simp, h c List.mem_cons_self, fun d hd => ?_, .inl rfl⟩
    exact isLetter_of_isInitial (h d (List.mem_cons_of_mem _ hd))

/-- The words that stand for values of their own. -/
def reserved : List (List Char) := ["true".toList, "false".toList, "nil".toList]

theorem isWord_reserved {letters : List Char} (h : letters ∈ reserved) : IsWord letters := by
  simp only [reserved, List.mem_cons, List.not_mem_nil, or_false] at h
  rcases h with rfl | rfl | rfl
  · exact ⟨'t', ['r', 'u', 'e'], [], rfl, rfl, by simp [isLetter], .inl rfl⟩
  · exact ⟨'f', ['a', 'l', 's', 'e'], [], rfl, rfl, by simp [isLetter], .inl rfl⟩
  · exact ⟨'n', ['i', 'l'], [], rfl, rfl, by simp [isLetter], .inl rfl⟩

theorem isWord_name {name : String}
    (h : IsPlainName name ∨ name = "\x7b\x7d" ∨ name = "%\x7b\x7d") :
    IsWord (':' :: name.toList) := by
  rcases h with ⟨-, hname⟩ | rfl | rfl
  · exact ⟨':', name.toList, [], by simp, rfl, fun c hc => isLetter_of_not_isSpecial (hname c hc),
      .inl rfl⟩
  · exact ⟨':', [], ['{', '}'], rfl, rfl, by simp, .inr rfl⟩
  · exact ⟨':', ['%'], ['{', '}'], rfl, rfl, by simp [isLetter], .inr rfl⟩

end Term

/-! ### Literals -/

/-- A literal as a term. -/
def Literal.term : Literal → Term
  | .string value => .string value.toList
  | .charlist value => .charlist value.toList
  | value => .word value.text.toList

/-- What a term can stand for. -/
inductive Kind where
  | call | application | identifier | pair | list
  | atom | string | charlist | integer | float | reserved

/-- What a term stands for, as its outermost form and its letters show it. -/
def Term.kind : Term → Kind
  | .word letters =>
    if letters.head? = some ':' then .atom
    else if letters ∈ reserved then .reserved
    else if letters.all isIntegral then .integer
    else .float
  | .string _ => .string
  | .charlist _ => .charlist
  | .tuple [.word _, _, .list _] => .call
  | .tuple [.word _, _, _] => .identifier
  | .tuple [_, _, _] => .application
  | .tuple _ => .pair
  | .list _ => .list

/-- A word of characters that neither an atom nor a reserved word is made of. -/
theorem Term.kind_word {letters : List Char} (p : Char → Bool) (h : ∀ c ∈ letters, p c = true)
    (hcolon : p ':' = false) (hreserved : ∀ word ∈ reserved, word.all p = false) :
    (word letters).kind = if letters.all isIntegral then .integer else .float := by
  have hhead : letters.head? ≠ some ':' := by
    intro hc
    rw [h ':' (List.mem_of_mem_head? hc)] at hcolon
    cases hcolon
  have hword : letters ∉ reserved := by
    intro hm
    have hall := hreserved letters hm
    rw [List.all_eq_true.mpr h] at hall
    cases hall
  rw [kind, if_neg hhead, if_neg hword]

namespace Literal

def kind : Literal → Kind
  | .atom _ => .atom
  | .string _ => .string
  | .charlist _ => .charlist
  | .integer _ => .integer
  | .float _ => .float
  | .boolean _ => .reserved
  | .nil => .reserved

variable {floats : Set Binary64}

theorem text_term (value : Literal) : value.term.text = value.quoted.toList := by
  cases value with
  | string value => simp [term, quoted, Term.text]
  | charlist value => simp [term, quoted, Term.text]
  | _ => rfl

theorem isReadable_term {value : Literal} (h : value.IsRegular floats) :
    value.term.IsReadable := by
  cases value with
  | atom name =>
    have hword := Term.isWord_name (h.imp_right .inl)
    simpa [term, text, Term.IsReadable] using hword
  | string value => trivial
  | charlist value => exact h
  | integer value =>
    exact Term.isWord_of_isInitial (toString_ne_nil value) fun c hc =>
      Term.isInitial_of_isIntegral (isIntegral_of_mem_toString value hc)
  | float value =>
    obtain ⟨c, hc, -⟩ := Binary64.exists_isFloatMark value
    exact Term.isWord_of_isInitial (List.ne_nil_of_mem hc) fun d hd =>
      Term.isInitial_of_isDecimalMark (Binary64.isDecimalMark_of_mem_text value hd)
  | boolean value =>
    cases value
    · exact Term.isWord_reserved (by decide)
    · exact Term.isWord_reserved (by decide)
  | nil => exact Term.isWord_reserved (by decide)

theorem kind_term (value : Literal) : value.term.kind = value.kind := by
  cases value with
  | atom name => simp [term, text, Term.kind, kind]
  | string value => rfl
  | charlist value => rfl
  | integer value =>
    have hintegral : ∀ c ∈ (toString value).toList, isIntegral c = true := fun c hc =>
      isIntegral_of_mem_toString value hc
    exact (Term.kind_word isIntegral hintegral (by decide) (by decide)).trans
      (if_pos (List.all_eq_true.mpr hintegral))
  | float value =>
    have hmarks : ∀ c ∈ value.text.toList, Binary64.isDecimalMark c = true := fun c hc =>
      Binary64.isDecimalMark_of_mem_text value hc
    have hintegral : value.text.toList.all isIntegral ≠ true := by
      intro hall
      obtain ⟨c, hc, hmark⟩ := Binary64.exists_isFloatMark value
      have hdigit := List.all_eq_true.mp hall c hc
      simp only [Binary64.isFloatMark, decide_eq_true_eq, List.mem_cons, List.not_mem_nil,
        or_false] at hmark
      rcases hmark with rfl | rfl | rfl <;> revert hdigit <;> decide
    exact (Term.kind_word Binary64.isDecimalMark hmarks (by decide) (by decide)).trans
      (if_neg hintegral)
  | boolean value => cases value <;> rfl
  | nil => rfl

/-- Regular literals with the same term are the same. -/
theorem term_injective (hfloats : floats.InjOn Binary64.text) {a b : Literal}
    (ha : a.IsRegular floats) (hb : b.IsRegular floats) (h : a.term = b.term) : a = b := by
  have hkind : a.kind = b.kind := by rw [← kind_term, h, kind_term]
  cases a with
  | atom name =>
    cases b with
    | atom name' => simpa [term, text, String.toList_inj] using h
    | _ => cases hkind
  | string value =>
    cases b with
    | string value' => simpa [term, String.toList_inj] using h
    | _ => cases hkind
  | charlist value =>
    cases b with
    | charlist value' => simpa [term, String.toList_inj] using h
    | _ => cases hkind
  | integer value =>
    cases b with
    | integer value' =>
      have htext : toString value = toString value' := by
        simpa [term, text, String.toList_inj] using h
      exact congrArg integer (Int.repr_inj.mp htext)
    | _ => cases hkind
  | float value =>
    cases b with
    | float value' =>
      have htext : value.text = value'.text := by simpa [term, text, String.toList_inj] using h
      exact congrArg float (hfloats ha hb htext)
    | _ => cases hkind
  | boolean value =>
    cases b with
    | boolean value' => cases value <;> cases value' <;> simp [term, text] at h ⊢
    | nil => cases value <;> simp [term, text] at h
    | _ => cases hkind
  | nil =>
    cases b with
    | nil => rfl
    | boolean value' => cases value' <;> simp [term, text] at h
    | _ => cases hkind

end Literal

/-! ### Nodes as terms -/

namespace Node

/-- The metadata of a call or an identifier as a term. -/
def lineTerm : Option Int → Term
  | none => .list []
  | some line => .list [.word ("line: " ++ toString line).toList]

mutual

/-- A node as a term. -/
def term : Node → Term
  | .call name args line =>
    .tuple [.word (':' :: name.toList), lineTerm line, argumentTerm args]
  | .apply head args line => .tuple [head.term, lineTerm line, argumentTerm args]
  | .pair left right => .tuple [left.term, right.term]
  | .list items => .list (terms items)
  | .literal value => value.term
  | .ident name line context =>
    .tuple [.word (':' :: name.toList), lineTerm line, .word (context.getD "nil").toList]

def argumentTerm : Option (List Node) → Term
  | none => .word "nil".toList
  | some args => .list (terms args)

def terms : List Node → List Term
  | [] => []
  | node :: nodes => node.term :: terms nodes

end

theorem text_lineTerm (line : Option Int) : (lineTerm line).text = (lineText line).toList := by
  cases line <;> simp [lineTerm, lineText, Term.text, Term.texts, Term.joined, Term.further]

mutual

/-- The text of the term is the quoted text. -/
theorem text_term : (node : Node) → node.term.text = node.quoted.toList
  | .call name args line => by
    simp [term, quoted, Term.text, Term.texts, Term.joined, Term.further, text_lineTerm,
      text_argumentTerm args]
  | .apply head args line => by
    simp [term, quoted, Term.text, Term.texts, Term.joined, Term.further, text_lineTerm,
      text_term head, text_argumentTerm args]
  | .pair left right => by
    simp [term, quoted, Term.text, Term.texts, Term.joined, Term.further, text_term left,
      text_term right]
  | .list items => by
    simp [term, quoted, Term.text, texts_terms items, Term.joined_eq]
  | .literal value => Literal.text_term value
  | .ident name line context => by
    simp [term, quoted, Term.text, Term.texts, Term.joined, Term.further, text_lineTerm]

theorem text_argumentTerm : (args : Option (List Node)) →
    (argumentTerm args).text = (argumentQuoted args).toList
  | none => rfl
  | some args => by
    simp [argumentTerm, argumentQuoted, Term.text, texts_terms args, Term.joined_eq]

theorem texts_terms : (nodes : List Node) →
    Term.texts (terms nodes) = (quotedAll nodes).map String.toList
  | [] => rfl
  | node :: nodes => by
    simp [terms, Term.texts, quotedAll, text_term node, texts_terms nodes]

end

/-! ### Readable nodes -/

variable {floats : Set Binary64}

theorem isReadable_lineTerm (line : Option Int) : (lineTerm line).IsReadable := by
  cases line with
  | none => trivial
  | some line =>
    refine ⟨⟨'l', "ine: ".toList ++ (toString line).toList, [], by simp, rfl, ?_, .inl rfl⟩,
      trivial⟩
    intro c hc
    rcases List.mem_append.mp hc with hc | hc
    · exact List.all_eq_true.mp (by decide : "ine: ".toList.all Term.isLetter) c hc
    · exact Term.isLetter_of_isInitial
        (Term.isInitial_of_isIntegral (isIntegral_of_mem_toString line hc))

theorem allReadable_terms (nodes : List Node) (h : ∀ node ∈ nodes, node.term.IsReadable) :
    Term.AllReadable (terms nodes) := by
  induction nodes with
  | nil => trivial
  | cons node nodes ih =>
    exact ⟨h node List.mem_cons_self, ih fun other ho => h other (List.mem_cons_of_mem _ ho)⟩

theorem IsRegular.isReadable_term {node : Node} (h : node.IsRegular floats) :
    node.term.IsReadable := by
  induction node using induction_depth with
  | step node ih =>
    have hchild : ∀ child ∈ node.children, child.term.IsReadable := fun child hc =>
      ih child (depth_lt_of_mem_children node child hc) (h.child hc)
    have hform := h.form
    cases node with
    | call name args line =>
      obtain ⟨args, rfl⟩ := Option.isSome_iff_exists.mp hform.2
      exact ⟨Term.isWord_name hform.1, isReadable_lineTerm line, allReadable_terms args hchild,
        trivial⟩
    | apply head args line =>
      obtain ⟨args, rfl⟩ := Option.isSome_iff_exists.mp hform.2
      have hargs : ∀ arg ∈ args, arg.term.IsReadable := fun arg ha =>
        hchild arg (List.mem_cons_of_mem _ ha)
      exact ⟨hchild head List.mem_cons_self, isReadable_lineTerm line,
        allReadable_terms args hargs, trivial⟩
    | pair left right => exact ⟨hchild left (by simp [children]), hchild right (by simp [children]),
        trivial⟩
    | list items => exact allReadable_terms items hchild
    | literal value => exact Literal.isReadable_term hform
    | ident name line context =>
      obtain ⟨hname, rfl⟩ := hform
      exact ⟨Term.isWord_name (.inl hname), isReadable_lineTerm line,
        Term.isWord_reserved (by decide), trivial⟩

/-! ### Nodes from their terms -/

theorem lineTerm_injective {a b : Option Int} (h : lineTerm a = lineTerm b) : a = b := by
  cases a <;> cases b <;> simp only [lineTerm, Term.list.injEq, List.cons.injEq, reduceCtorEq,
    Term.word.injEq, and_true, String.toList_inj] at h
  · rfl
  · exact congrArg some (Int.repr_inj.mp (String.append_right_inj _ |>.mp h))

theorem terms_injective {as bs : List Node}
    (has : ∀ a ∈ as, ∀ b ∈ bs, a.term = b.term → a = b) (h : terms as = terms bs) : as = bs := by
  induction as generalizing bs with
  | nil =>
    cases bs with
    | nil => rfl
    | cons b bs => cases h
  | cons a as ih =>
    cases bs with
    | nil => cases h
    | cons b bs =>
      obtain ⟨hhead, htail⟩ := List.cons.inj h
      rw [has a List.mem_cons_self b List.mem_cons_self hhead,
        ih (fun x hx y hy => has x (List.mem_cons_of_mem _ hx) y (List.mem_cons_of_mem _ hy)) htail]

def kind : Node → Kind
  | .call _ _ _ => .call
  | .apply _ _ _ => .application
  | .pair _ _ => .pair
  | .list _ => .list
  | .literal value => value.kind
  | .ident _ _ _ => .identifier

theorem HasRegularForm.kind_term {node : Node} (h : node.HasRegularForm floats) :
    node.term.kind = node.kind := by
  cases node with
  | call name args line =>
    obtain ⟨args, rfl⟩ := Option.isSome_iff_exists.mp h.2
    rfl
  | apply head args line =>
    obtain ⟨hhead, -⟩ := h
    cases head with
    | call _ _ _ => rfl
    | apply _ _ _ => rfl
    | _ => cases hhead
  | pair left right => simp [term, Term.kind, kind]
  | list items => rfl
  | literal value => exact Literal.kind_term value
  | ident name line context => rfl

/-- Regular nodes with the same term are the same. -/
theorem term_injective (hfloats : floats.InjOn Binary64.text) {a b : Node}
    (ha : a.IsRegular floats) (hb : b.IsRegular floats) (h : a.term = b.term) : a = b := by
  induction a using induction_depth generalizing b with
  | step a ih =>
    have hchild : ∀ x ∈ a.children, ∀ y ∈ b.children, x.term = y.term → x = y :=
      fun x hx y hy => ih x (depth_lt_of_mem_children a x hx) (ha.child hx) (hb.child hy)
    have hkind : a.kind = b.kind := by rw [← ha.form.kind_term, h, hb.form.kind_term]
    cases a with
    | call name args line =>
      obtain ⟨args, rfl⟩ := Option.isSome_iff_exists.mp ha.form.2
      cases b with
      | call name' args' line' =>
        obtain ⟨args', rfl⟩ := Option.isSome_iff_exists.mp hb.form.2
        simp only [term, argumentTerm, Term.tuple.injEq, List.cons.injEq, Term.word.injEq,
          Term.list.injEq, true_and, and_true, String.toList_inj] at h
        obtain ⟨rfl, hline, hargs⟩ := h
        have hsame : args = args' := terms_injective hchild hargs
        rw [hsame, lineTerm_injective hline]
      | literal value => cases value <;> cases hkind
      | _ => cases hkind
    | apply head args line =>
      obtain ⟨args, rfl⟩ := Option.isSome_iff_exists.mp ha.form.2
      cases b with
      | apply head' args' line' =>
        obtain ⟨args', rfl⟩ := Option.isSome_iff_exists.mp hb.form.2
        simp only [term, argumentTerm, Term.tuple.injEq, List.cons.injEq, Term.list.injEq,
          and_true] at h
        obtain ⟨hhead, hline, hargs⟩ := h
        have hsame : args = args' := terms_injective (fun x hx y hy =>
          hchild x (List.mem_cons_of_mem _ hx) y (List.mem_cons_of_mem _ hy)) hargs
        rw [hchild head List.mem_cons_self head' List.mem_cons_self hhead, hsame,
          lineTerm_injective hline]
      | literal value => cases value <;> cases hkind
      | _ => cases hkind
    | pair left right =>
      cases b with
      | pair left' right' =>
        simp only [term, Term.tuple.injEq, List.cons.injEq, and_true] at h
        rw [hchild left (by simp [children]) left' (by simp [children]) h.1,
          hchild right (by simp [children]) right' (by simp [children]) h.2]
      | literal value => cases value <;> cases hkind
      | _ => cases hkind
    | list items =>
      cases b with
      | list items' =>
        have hsame : items = items' := terms_injective hchild (Term.list.inj h)
        rw [hsame]
      | literal value => cases value <;> cases hkind
      | _ => cases hkind
    | literal value =>
      cases b with
      | literal value' => rw [Literal.term_injective hfloats ha.form hb.form h]
      | _ => cases value <;> cases hkind
    | ident name line context =>
      cases b with
      | ident name' line' context' =>
        obtain ⟨-, rfl⟩ := ha.form
        obtain ⟨-, rfl⟩ := hb.form
        simp only [term, Term.tuple.injEq, List.cons.injEq, Term.word.injEq, true_and, and_true,
          String.toList_inj] at h
        rw [h.1, lineTerm_injective h.2]
      | literal value => cases value <;> cases hkind
      | _ => cases hkind

/-- The quoted text of a regular node can be read in one way only. -/
theorem quoted_injective (floats : Set Binary64) (hfloats : floats.InjOn Binary64.text)
    (a b : Node) (ha : a.IsRegular floats) (hb : b.IsRegular floats)
    (h : a.quoted = b.quoted) : a = b := by
  refine term_injective hfloats ha hb ?_
  refine Term.text_injective ha.isReadable_term hb.isReadable_term ?_
  rw [text_term, text_term, h]

/-- Parts that look alike: empty tuples and lists, bare names, quoted separators, three numbers. -/
def lookalikes : Node :=
  .list [.call "\x7b\x7d" (some []) none, .call "%\x7b\x7d" (some [.list []]) (some 1),
    .ident "nil" none none, .literal .nil, .literal (.atom "nil"),
    .literal (.string "\\\", [nil]"), .literal (.charlist "\"]"),
    .apply (.call "." (some [.ident "f" (some 2) none]) (some 2)) (some []) (some (-2)),
    .pair (.literal (.integer 15)) (.literal (.float (.finite false 6755399441055744 (-52)))),
    .literal (.float (.finite true 0 Binary64.minExponent))]

theorem quoted_injective_lookalikes :
    (lookalikes.withChildren lookalikes.children).quoted = lookalikes.quoted ∧
      lookalikes.withChildren lookalikes.children = lookalikes := by
  have hfraction : Binary64.read? (Binary64.finite false 6755399441055744 (-52)).text =
      some (.finite false 6755399441055744 (-52)) := by decide +kernel
  have hzero : Binary64.read? (Binary64.finite true 0 Binary64.minExponent).text =
      some (.finite true 0 Binary64.minExponent) := by decide +kernel
  have hregular : lookalikes.IsRegular {value | Binary64.read? value.text = some value} := by
    simp [IsRegular, lookalikes, occurrences_eq, children, HasRegularForm, Literal.IsRegular,
      isCall, IsPlainName, isSpecial, hfraction, hzero]
  exact ⟨rfl, quoted_injective _ Binary64.injOn_text _ _ hregular hregular rfl⟩

end Node

end LineScope
