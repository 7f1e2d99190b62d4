import LineScope.Proofs.Grammar.Cutting
import LineScope.Proofs.Grammar.Reading
import LineScope.Proofs.Grammar.Tower

/-!
# Fronts of written expressions

What is left of a written expression starts with an operand, with an operator and a blank, with a
closing parenthesis, or not at all.  There almost no terminal matches: no literal, no collection, no
separator and no word starts there.
-/

namespace LineScope.Grammar

open LineScope.Text Terminal

/-! ### What never starts at a front -/

/-- The fixed texts that never start at a front.  The words and the other terminals that never start
there stand in the two lists below. -/
def quietTexts : List String := [",", ";", "@", "[", "\x7b", "%\x7b", "<<"]

def quietWords : List String := ["true", "false", "nil", "fn", "not", "do"]

def quietTerminals : List Terminal :=
  [aliasSegment, atom, integer, float, char, quotedText '"', quotedText '\'', heredoc '"',
    heredoc '\'', sigil, captureArg, captureSign, dot, percent, lineEnds]

/-- A text at which nothing but an operand, an operator or a closing parenthesis may start. -/
structure QuietAt (rest : List Char) : Prop where
  texts : ∀ text ∈ quietTexts, textWidth text rest = none
  words : ∀ word ∈ quietWords, keywordWidth word rest = none
  terminals : ∀ terminal ∈ quietTerminals, ∀ before, terminal before rest = none
  solid : Solid rest

/-- A text at which moreover no operand starts. -/
structure Past (rest : List Char) : Prop extends QuietAt rest where
  name : ∀ before, Terminal.name before rest = none
  keywordKey : ∀ before, Terminal.keywordKey before rest = none
  opening : textWidth "(" rest = none

/-- A text at which moreover an operand may start, but no operator. -/
structure Ahead (rest : List Char) : Prop extends QuietAt rest where
  sign : ∀ before, Terminal.sign before rest = none

theorem textNotBefore_of_none (text : String) (stops cs : List Char) (h : textWidth text cs = none) :
    textNotBefore text stops cs = none := by
  rw [textNotBefore, h]

theorem keywordWidth_of_none (word : String) (cs : List Char) (h : textWidth word cs = none) :
    keywordWidth word cs = none := by
  rw [keywordWidth, h]

theorem textWidth_of_head_ne (text : String) (c : Char) (cs : List Char)
    (h : text.toList.head?.any (· != c) = true) : textWidth text (c :: cs) = none := by
  rw [textWidth, if_neg]
  intro hprefix
  obtain ⟨rest, hrest⟩ := List.isPrefixOf_iff_prefix.mp hprefix
  cases htext : text.toList with
  | nil => simp [htext] at h
  | cons d ds =>
    rw [htext] at hrest h
    simp [(List.cons.inj hrest).1] at h

/-! ### The end and parentheses -/

theorem past_nil : Past [] := by
  refine ⟨⟨?_, ?_, ?_, rfl⟩, fun _ => rfl, fun _ => rfl, rfl⟩
  · decide
  · decide
  · simp only [quietTerminals, List.forall_mem_cons]
    refine ⟨?_, ?_, ?_, ?_, ?_, ?_, ?_, ?_, ?_, ?_, ?_, ?_, ?_, ?_, ?_, List.forall_mem_nil _⟩ <;>
      exact fun _ => rfl

/-- The characters with which operands start, and the closing parenthesis. -/
def startsOperand (c : Char) : Bool := c == '(' || c == ')' || c.isLower || c == '_'

section Head

variable (c : Char) (cs : List Char) (hc : startsOperand c = true)

include hc

theorem ne_of_startsOperand (d : Char) (hd : startsOperand d = false) : c ≠ d := by
  rintro rfl
  exact Bool.false_ne_true (hd.symm.trans hc)

/-- No operand starts with a character of a class below the small letters. -/
theorem outside_of_startsOperand (p : Char → Bool) (high : Char)
    (hp : ∀ d, p d = true → d ≤ high) (hhigh : ¬ 'a' ≤ high)
    (hothers : p '(' = false ∧ p ')' = false ∧ p '_' = false) : p c = false := by
  obtain ⟨hopening, hclosing, hbar⟩ := hothers
  refine Bool.eq_false_iff.mpr fun hin => ?_
  simp only [startsOperand, Bool.or_eq_true, beq_iff_eq] at hc
  rcases hc with ((rfl | rfl) | hlower) | rfl
  · exact Bool.false_ne_true (hopening.symm.trans hin)
  · exact Bool.false_ne_true (hclosing.symm.trans hin)
  · have hlow : 'a' ≤ c := of_decide_eq_true (Bool.and_eq_true_iff.mp hlower).1
    exact hhigh (Char.le_trans hlow (hp c hin))
  · exact Bool.false_ne_true (hbar.symm.trans hin)

theorem isDigit_of_startsOperand : c.isDigit = false :=
  outside_of_startsOperand c hc Char.isDigit '9'
    (fun _ h => of_decide_eq_true (Bool.and_eq_true_iff.mp h).2) (by decide) (by decide)

theorem isUpper_of_startsOperand : c.isUpper = false :=
  outside_of_startsOperand c hc Char.isUpper 'Z' (fun _ h => (of_decide_eq_true h).2) (by decide)
    (by decide)

theorem textWidth_of_startsOperand (text : String)
    (htext : text.toList.head?.any (fun d => !startsOperand d) = true) :
    textWidth text (c :: cs) = none := by
  refine textWidth_of_head_ne text c cs ?_
  cases hhead : text.toList.head? with
  | none => simp [hhead] at htext
  | some d =>
    rw [hhead, Option.any_some, Bool.not_eq_true'] at htext
    simpa using Ne.symm (ne_of_startsOperand c hc d htext)

theorem quiet_terminals_of_startsOperand :
    ∀ terminal ∈ quietTerminals, ∀ before, terminal before (c :: cs) = none := by
  have hne := ne_of_startsOperand c hc
  have hdigit := isDigit_of_startsOperand c hc
  have hcons : ∀ d ds, startsOperand d = false → ∀ {P : Prop}, c :: cs = d :: ds → P :=
    fun d ds hd _ he => absurd (List.cons.inj he).1 (hne d hd)
  have hdecimal : decimalWidth (c :: cs) = none := by simp [decimalWidth, hdigit]
  have hbased : ∀ mark digit, basedWidth mark digit (c :: cs) = none := by
    intro mark digit
    unfold basedWidth
    split
    · rename_i he
      exact hcons '0' _ (by decide) he
    · rfl
  have hthree : ∀ mark, startsOperand mark = false → heredocWidth mark (c :: cs) = none := by
    intro mark hmark
    simp [heredocWidth, threeOf, List.isPrefixOf, Ne.symm (hne mark hmark)]
  simp only [quietTerminals, List.forall_mem_cons]
  refine ⟨?_, ?_, ?_, ?_, ?_, ?_, ?_, ?_, ?_, ?_, ?_, ?_, ?_, ?_, ?_, List.forall_mem_nil _⟩ <;>
    intro before
  · simp [aliasSegment, isUpper_of_startsOperand c hc]
  · unfold atom
    split
    · rename_i he
      exact hcons ':' _ (by decide) he
    · rfl
  · simp [integer, wholeWidth, hbased, hdecimal]
  · simp [float, hdecimal]
  · unfold char
    split
    · rename_i he
      exact hcons '?' _ (by decide) he
    · rename_i he
      exact hcons '?' _ (by decide) he
    · rfl
  · simp [quotedText, hne '"' (by decide)]
  · simp [quotedText, hne '\'' (by decide)]
  · exact hthree '"' (by decide)
  · exact hthree '\'' (by decide)
  · unfold sigil sigilWidth
    split
    · rename_i he
      exact hcons '~' _ (by decide) he
    · rfl
  · unfold captureArg
    split
    · rename_i he
      exact hcons '&' _ (by decide) he
    · rfl
  · unfold captureSign
    split
    · rename_i he
      exact hcons '&' _ (by decide) he
    · rfl
  · exact textNotBefore_of_none _ _ _ (textWidth_of_startsOperand c cs hc "." (by decide))
  · exact textNotBefore_of_none _ _ _ (textWidth_of_startsOperand c cs hc "%" (by decide))
  · unfold lineEnds
    split
    · rename_i he
      exact hcons '\n' _ (by decide) he
    · rename_i he
      exact hcons '\r' _ (by decide) he
    · rfl

theorem texts_of_startsOperand : ∀ text ∈ quietTexts, textWidth text (c :: cs) = none := by
  have hfirst : ∀ text ∈ quietTexts,
      text.toList.head?.any (fun d => !startsOperand d) = true := by decide
  exact fun text htext => textWidth_of_startsOperand c cs hc text (hfirst text htext)

theorem solid_of_startsOperand : Solid (c :: cs) := by
  have hne := ne_of_startsOperand c hc
  have hblank : ¬ (c = ' ' ∨ c = '\t' ∨ c = '\x0c') := by
    rintro (h | h | h)
    · exact hne ' ' (by decide) h
    · exact hne '\t' (by decide) h
    · exact hne '\x0c' (by decide) h
  rw [Solid, Cursor.ignoredWidth, if_neg hblank, if_neg (hne '#' (by decide))]

theorem sign_of_startsOperand (before : Option Char) : sign before (c :: cs) = none := by
  have htext := textWidth_of_startsOperand c cs hc
  rw [sign, textNotBefore_of_none _ _ _ (htext "-" (by decide)),
    textNotBefore_of_none _ _ _ (htext "+" (by decide)),
    textNotBefore_of_none _ _ _ (htext "!" (by decide)), htext "^" (by decide)]
  rfl

end Head

/-- In front of a parenthesis only the parenthesis matches. -/
theorem quiet_paren (c : Char) (cs : List Char) (hc : c = '(' ∨ c = ')') : QuietAt (c :: cs) := by
  have hstarts : startsOperand c = true := by rcases hc with rfl | rfl <;> rfl
  refine ⟨texts_of_startsOperand c cs hstarts, fun word hword => keywordWidth_of_none _ _ ?_,
    quiet_terminals_of_startsOperand c cs hstarts, solid_of_startsOperand c cs hstarts⟩
  refine textWidth_of_head_ne word c cs ?_
  have hfirst : ∀ word ∈ quietWords,
      word.toList.head?.any (· != '(') = true ∧ word.toList.head?.any (· != ')') = true := by decide
  rcases hc with rfl | rfl
  · exact (hfirst word hword).1
  · exact (hfirst word hword).2

theorem ahead_paren (cs : List Char) : Ahead ('(' :: cs) :=
  ⟨quiet_paren '(' cs (.inl rfl), sign_of_startsOperand '(' cs rfl⟩

theorem past_paren (cs : List Char) : Past (')' :: cs) :=
  ⟨quiet_paren ')' cs (.inr rfl), fun _ => rfl, fun _ => rfl, rfl⟩

/-! ### Operators -/

section Operators

variable (cs : List Char)

/-- The text of an operator and a blank behind it. -/
def Operator.front (op : Operator) (cs : List Char) : List Char := op.text.toList ++ ' ' :: cs

-- every operator is a text of its own, so the terminals are tried on each of them

theorem texts_operator :
    ∀ op ∈ Operator.all, ∀ text ∈ quietTexts, textWidth text (op.front cs) = none := by
  simp only [quietTexts, Operator.all, List.forall_mem_cons]
  repeat' apply And.intro
  all_goals first | rfl | exact List.forall_mem_nil _

theorem words_operator :
    ∀ op ∈ Operator.all, ∀ word ∈ quietWords, keywordWidth word (op.front cs) = none := by
  simp only [quietWords, Operator.all, List.forall_mem_cons]
  repeat' apply And.intro
  all_goals first | rfl | exact List.forall_mem_nil _

theorem terminals_operator : ∀ op ∈ Operator.all, ∀ terminal ∈ quietTerminals, ∀ before,
    terminal before (op.front cs) = none := by
  simp only [quietTerminals, Operator.all, List.forall_mem_cons]
  repeat' apply And.intro
  all_goals first | exact fun _ => rfl | exact List.forall_mem_nil _

theorem names_operator : ∀ op ∈ Operator.all,
    (∀ before, Terminal.name before (op.front cs) = none) ∧
      (∀ before, Terminal.keywordKey before (op.front cs) = none) ∧
        textWidth "(" (op.front cs) = none ∧ textWidth ")" (op.front cs) = none ∧
          Solid (op.front cs) := by
  simp only [Operator.all, List.forall_mem_cons]
  repeat' apply And.intro
  all_goals first | exact fun _ => rfl | rfl | exact List.forall_mem_nil _

theorem past_operator (op : Operator) (hop : op ∈ Operator.all) : Past (op.front cs) :=
  have ⟨hname, hkey, hopening, _, hsolid⟩ := names_operator cs op hop
  ⟨⟨texts_operator cs op hop, words_operator cs op hop, terminals_operator cs op hop, hsolid⟩,
    hname, hkey, hopening⟩

/-- In front of an operator and a blank the operator is found. -/
theorem at?_operator : ∀ op ∈ Operator.all, Operator.at? (op.front cs) = some op ∧
    op.width (op.front cs) = some op.text.toList.length := by
  simp only [Operator.all, List.forall_mem_cons]
  repeat' apply And.intro
  all_goals first | rfl | exact List.forall_mem_nil _

/-- In front of an operator and a blank, a sign is the whole operator. -/
theorem sign_operator : ∀ op ∈ Operator.all, (∀ before, sign before (op.front cs) = none) ∨
    ∀ before, sign before (op.front cs) = some op.text.toList.length := by
  simp only [Operator.all, List.forall_mem_cons]
  repeat' apply And.intro
  all_goals
    first | exact .inl fun _ => rfl | exact .inr fun _ => rfl | exact List.forall_mem_nil _

end Operators

/-! ### Names -/

/-- A text behind which a word has come to its end: nothing, a blank or a closing parenthesis. -/
def EndsWord (rest : List Char) : Prop := ∀ c, rest.head? = some c → c = ' ' ∨ c = ')'

namespace Name

variable (word : Name) (rest : List Char)

theorem startsOperand_first : startsOperand word.first = true := by
  rw [startsOperand, Bool.or_assoc, word.first_start, Bool.or_true]

theorem continuesWord_of_mem (c : Char) (hc : c ∈ word.chars) : continuesWord c = true := by
  have hnameChar : ∀ d, isNameChar d = true → continuesWord d = true := by
    intro d hd
    simp [continuesWord, isWord_of_isNameChar d hd]
  rcases List.mem_append.mp hc with hc | hc
  · rcases List.mem_cons.mp hc with rfl | hc
    · exact hnameChar _ (isNameChar_of_lower _ word.first_start)
    · exact hnameChar c (word.more_nameChar c hc)
  · rcases word.mark_mark c (Option.mem_toList.mp hc) with rfl | rfl <;> rfl

theorem keywordWidth_chars (hrest : EndsWord rest) (text : String) (htext : text ∈ reserved) :
    keywordWidth text (word.chars ++ rest) = none := by
  have hne : text.toList ≠ word.chars := by
    intro he
    exact word.not_reserved (by rwa [← String.ofList_toList (s := text), he] at htext)
  have hinside : ∀ text ∈ reserved, ' ' ∉ text.toList ∧ ')' ∉ text.toList := by decide
  unfold keywordWidth textWidth
  by_cases hprefix : text.toList.isPrefixOf (word.chars ++ rest) = true
  · obtain ⟨behind, hbehind⟩ := List.isPrefixOf_iff_prefix.mp hprefix
    rw [if_pos hprefix]
    dsimp only
    rw [← hbehind, ← String.length_toList, List.drop_left, if_pos]
    rcases List.append_eq_append_iff.mp hbehind with ⟨more, hword, rfl⟩ | ⟨more, htext', hrest'⟩
    · cases more with
      | nil => exact absurd (by simpa using hword.symm) hne
      | cons c more =>
        simpa using word.continuesWord_of_mem c (by simp [hword])
    · cases more with
      | nil => exact absurd (by simpa using htext') hne
      | cons c more =>
        obtain ⟨hblank, hparen⟩ := hinside text htext
        rcases hrest c (by simp [hrest']) with rfl | rfl
        · exact absurd (by simp [htext']) hblank
        · exact absurd (by simp [htext']) hparen
  · rw [if_neg hprefix]

theorem runWidth_more (hrest : EndsWord rest) :
    runWidth isNameChar (word.more ++ (word.mark.toList ++ rest)) = word.more.length := by
  rw [runWidth, List.takeWhile_append_of_pos word.more_nameChar]
  have hstop : (word.mark.toList ++ rest).takeWhile isNameChar = [] := by
    cases hmark : word.mark with
    | some m => rcases word.mark_mark m hmark with rfl | rfl <;> rfl
    | none =>
      cases rest with
      | nil => rfl
      | cons c rest => rcases hrest c rfl with rfl | rfl <;> rfl
  rw [hstop, List.append_nil]

theorem name_chars (hrest : EndsWord rest) (before : Option Char) :
    Terminal.name before (word.chars ++ rest) = some word.chars.length := by
  have hfree : (reserved.any fun text => (keywordWidth text (word.chars ++ rest)).isSome) = false := by
    rw [List.any_eq_false]
    intro text htext
    simp [word.keywordWidth_chars rest hrest text htext]
  have hchars : word.chars ++ rest = word.first :: (word.more ++ (word.mark.toList ++ rest)) := by
    simp [chars]
  rw [Terminal.name, hfree, if_neg Bool.false_ne_true, hchars, nameWidth, if_pos word.first_start,
    word.runWidth_more rest hrest]
  dsimp only
  rw [List.drop_left]
  cases hmark : word.mark with
  | some m =>
    have hany : ((some m).toList ++ rest).head?.any (fun m => m == '?' || m == '!') = true := by
      rcases word.mark_mark m hmark with rfl | rfl <;> rfl
    rw [if_pos hany]
    simp [chars, hmark]
  | none =>
    have hany : ((none : Option Char).toList ++ rest).head?.any (fun m => m == '?' || m == '!') =
        false := by
      cases rest with
      | nil => rfl
      | cons c rest => rcases hrest c rfl with rfl | rfl <;> rfl
    rw [if_neg (by rw [hany]; exact Bool.false_ne_true)]
    simp [chars, hmark]

theorem opening_chars : textWidth "(" (word.chars ++ rest) = none := by
  refine textWidth_of_head_ne "(" word.first _ ?_
  have hne : '(' ≠ word.first := by
    intro he
    have hstart := word.first_start
    rw [← he] at hstart
    cases hstart
  simpa using hne

theorem ahead_chars (hrest : EndsWord rest) : Ahead (word.chars ++ rest) := by
  have hstarts := word.startsOperand_first
  have hreserved : ∀ text ∈ quietWords, text ∈ reserved := by decide
  exact ⟨⟨texts_of_startsOperand _ _ hstarts,
    fun text htext => word.keywordWidth_chars rest hrest text (hreserved text htext),
    quiet_terminals_of_startsOperand _ _ hstarts, solid_of_startsOperand _ _ hstarts⟩,
    sign_of_startsOperand _ _ hstarts⟩

end Name

end LineScope.Grammar
