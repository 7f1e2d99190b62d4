import LineScope.Grammar.Operator
import Mathlib.Data.List.Basic
import Mathlib.Data.List.Infix
import Mathlib.Data.List.TakeWhile

/-!
# Tokens and parentheses at the start of a line

Most tokens cannot reach over a parenthesis at the start of a line, nor can blanks and comments.  A
name ends in front of a parenthesis.
-/

namespace LineScope.Grammar.Terminal

open LineScope.Text

/-! ### Fixed texts -/

theorem take_textWidth (text : String) (cs : List Char) (w : Nat)
    (h : textWidth text cs = some w) : cs.take w = text.toList := by
  unfold textWidth at h
  split at h
  · rename_i hprefix
    obtain ⟨rest, rfl⟩ := List.isPrefixOf_iff_prefix.mp hprefix
    cases h
    rw [← String.length_toList, List.take_left]
  · cases h

theorem take_textNotBefore (text : String) (stops cs : List Char) (w : Nat)
    (h : textNotBefore text stops cs = some w) : cs.take w = text.toList := by
  unfold textNotBefore at h
  split at h
  · cases h
  · rename_i width hwidth
    split at h
    · cases h
    · cases h
      exact take_textWidth text cs _ hwidth

theorem take_keywordWidth (word : String) (cs : List Char) (w : Nat)
    (h : keywordWidth word cs = some w) : cs.take w = word.toList := by
  unfold keywordWidth at h
  split at h
  · cases h
  · rename_i width hwidth
    split at h
    · cases h
    · cases h
      exact take_textWidth word cs _ hwidth

theorem take_operatorWidth (op : Operator) (cs : List Char) (w : Nat) (h : op.width cs = some w) :
    cs.take w = op.text.toList := by
  unfold Operator.width at h
  split at h
  · exact take_keywordWidth _ cs w h
  · exact take_textNotBefore _ _ cs w h

/-! ### Flat texts -/

/-- A parenthesis at the start of a line. -/
def LineParen (m : List Char) : Prop := ['\n', '('] <:+: m

/-- A text that does not reach over a parenthesis at the start of a line, and starts neither with a
parenthesis nor with an underscore. -/
structure FlatText (m : List Char) : Prop where
  ne_nil : m ≠ []
  head_paren : m.head? ≠ some '('
  head_bar : m.head? ≠ some '_'
  lineParen : ¬ LineParen m

/-- A terminal all of whose matches are flat. -/
def Flat (terminal : Terminal) : Prop :=
  ∀ before cs w, terminal before cs = some w → FlatText (cs.take w)

theorem mem_of_lineParen (m : List Char) (h : LineParen m) : '\n' ∈ m ∧ '(' ∈ m :=
  ⟨h.subset (by simp), h.subset (by simp)⟩

theorem flatText_of_not_mem (m : List Char) (hne : m ≠ []) (hparen : '(' ∉ m)
    (hbar : m.head? ≠ some '_') : FlatText m := by
  refine ⟨hne, fun h => hparen ?_, hbar, fun h => hparen (mem_of_lineParen m h).2⟩
  exact List.mem_of_mem_head? h

/-- Whether a fixed text is flat. -/
def isFlatWord (text : String) : Bool :=
  match text.toList with
  | [] => false
  | c :: cs => c != '_' && !(c :: cs).contains '('

theorem flatText_of_isFlatWord (text : String) (h : isFlatWord text = true) :
    FlatText text.toList := by
  unfold isFlatWord at h
  split at h
  · cases h
  · rename_i c cs htext
    rw [htext]
    simp only [Bool.and_eq_true, bne_iff_ne, Bool.not_eq_true', List.contains_eq_mem,
      decide_eq_false_iff_not] at h
    refine flatText_of_not_mem _ (List.cons_ne_nil _ _) h.2 ?_
    rw [List.head?_cons]
    exact fun he => h.1 (Option.some.inj he)

theorem flat_fixed (text : String) (h : isFlatWord text = true) : Flat (fixed text) := by
  intro before cs w hw
  rw [take_textWidth text cs w hw]
  exact flatText_of_isFlatWord text h

theorem flat_keyword (word : String) (h : isFlatWord word = true) : Flat (keyword word) := by
  intro before cs w hw
  rw [take_keywordWidth word cs w hw]
  exact flatText_of_isFlatWord word h

theorem flat_textNotBefore (text : String) (stops : List Char) (h : isFlatWord text = true) :
    Flat fun _ cs => textNotBefore text stops cs := by
  intro before cs w hw
  rw [take_textNotBefore text stops cs w hw]
  exact flatText_of_isFlatWord text h

theorem isFlatWord_operator : ∀ op ∈ Operator.all, isFlatWord op.text = true := by decide

theorem flat_operator (op : Operator) (h : isFlatWord op.text = true) : Flat op.terminal := by
  intro before cs w hw
  rw [take_operatorWidth op cs w hw]
  exact flatText_of_isFlatWord op.text h

theorem flat_blockLabel : Flat blockLabel := by
  intro before cs w hw
  obtain ⟨word, hmem, hword⟩ := List.exists_of_findSome?_eq_some hw
  rw [take_keywordWidth word cs w hword]
  have hall : ∀ word ∈ blockLabels, isFlatWord word = true := by decide
  exact flatText_of_isFlatWord word (hall word hmem)

theorem flat_dot : Flat dot := flat_textNotBefore "." ['.'] (by decide)

theorem flat_percent : Flat percent := flat_textNotBefore "%" ['\x7b'] (by decide)

theorem flat_bracket (allowed : Option Char → Bool) :
    Flat fun before cs => if allowed before then textWidth "[" cs else none := by
  intro before cs w hw
  dsimp only at hw
  split at hw
  · rw [take_textWidth "[" cs w hw]
    exact flatText_of_isFlatWord "[" (by decide)
  · cases hw

theorem flat_accessBracket : Flat accessBracket := flat_bracket fun before => before.any takesAccess

theorem flat_listBracket : Flat listBracket := by
  intro before cs w hw
  refine flat_bracket (fun before => !before.any takesAccess) before cs w ?_
  unfold listBracket at hw
  dsimp only
  split at hw
  · cases hw
  · rename_i h
    rw [Bool.not_eq_true] at h
    rw [h, Bool.not_false, if_pos rfl]
    exact hw

theorem flat_sign : Flat sign := by
  intro before cs w hw
  simp only [sign, Option.or_eq_some_iff] at hw
  rcases hw with hw | ⟨_, hw | ⟨_, hw | ⟨_, hw⟩⟩⟩
  · exact flat_textNotBefore "-" _ (by decide) before cs w hw
  · exact flat_textNotBefore "+" _ (by decide) before cs w hw
  · exact flat_textNotBefore "!" _ (by decide) before cs w hw
  · exact flat_fixed "^" (by decide) before cs w hw

/-! ### Runs of characters -/

theorem take_runWidth (p : Char → Bool) (cs : List Char) :
    cs.take (runWidth p cs) = cs.takeWhile p := by
  rw [runWidth, List.takeWhile_eq_take_findIdx_not]
  simp

theorem not_mem_take_runWidth (p : Char → Bool) (c : Char) (hc : p c = false) (cs : List Char) :
    c ∉ cs.take (runWidth p cs) := by
  rw [take_runWidth]
  intro hm
  rw [List.mem_takeWhile_imp hm] at hc
  cases hc

theorem not_mem_takeParts (c : Char) (cs : List Char) (first second : Nat)
    (hfirst : c ∉ cs.take first) (hsecond : c ∉ (cs.drop first).take second) :
    c ∉ cs.take (first + second) := by
  rw [List.take_add, List.mem_append, not_or]
  exact ⟨hfirst, hsecond⟩

theorem flat_aliasSegment : Flat aliasSegment := by
  intro before cs w hw
  cases cs with
  | nil => cases hw
  | cons c cs =>
    simp only [aliasSegment] at hw
    split at hw
    · rename_i hc
      cases hw
      rw [List.take_succ_cons]
      refine flatText_of_not_mem _ (List.cons_ne_nil _ _) ?_ ?_
      · rw [List.mem_cons, not_or]
        refine ⟨?_, not_mem_take_runWidth isNameChar '(' (by decide) cs⟩
        rintro rfl
        exact absurd hc (by decide)
      · rw [List.head?_cons]
        rintro he
        cases he
        exact absurd hc (by decide)
    · cases hw

theorem flat_captureSign : Flat captureSign := by
  intro before cs w hw
  unfold captureSign at hw
  split at hw
  · split at hw
    · cases hw
    · cases hw
      exact flatText_of_not_mem _ (by simp) (by simp) (by simp)
  · cases hw

theorem flat_captureArg : Flat captureArg := by
  intro before cs w hw
  unfold captureArg at hw
  split at hw
  · rename_i cs
    dsimp only at hw
    split at hw
    · cases hw
    · cases hw
      rw [List.take_succ_cons]
      refine flatText_of_not_mem _ (List.cons_ne_nil _ _) ?_ (by simp)
      rw [List.mem_cons, not_or]
      exact ⟨by decide, not_mem_take_runWidth Char.isDigit '(' (by decide) cs⟩
  · cases hw

theorem flat_char : Flat char := by
  intro before cs w hw
  unfold char at hw
  split at hw
  · rename_i c rest
    cases hw
    refine ⟨by simp, by simp, by simp, fun h => ?_⟩
    obtain ⟨front, rest', he⟩ := h
    have hlength := congrArg List.length he
    match front, he with
    | [], he => simp at he
    | [a], he => simp at he
    | a :: b :: front, he =>
      simp at hlength
      omega
  · rename_i c rest _
    split at hw
    · cases hw
    · cases hw
      refine ⟨by simp, by simp, by simp, fun h => ?_⟩
      obtain ⟨front, rest', he⟩ := h
      have hlength := congrArg List.length he
      match front, he with
      | [], he => simp at he
      | a :: front, he =>
        simp at hlength
        omega
  · cases hw

/-! ### Numbers -/

theorem decimalWidth_inv (cs : List Char) (w : Nat) (h : decimalWidth cs = some w) :
    ∃ c rest, cs = c :: rest ∧ c.isDigit = true ∧ w = runWidth isDigitOrBar rest + 1 := by
  cases cs with
  | nil => cases h
  | cons c cs =>
    simp only [decimalWidth] at h
    split at h
    · rename_i hc
      cases h
      exact ⟨c, cs, rfl, hc, rfl⟩
    · cases h

theorem head_of_decimalWidth (cs : List Char) (w : Nat) (h : decimalWidth cs = some w) (n : Nat) :
    cs.take (w + n) ≠ [] ∧ (cs.take (w + n)).head? ≠ some '_' := by
  obtain ⟨c, rest, rfl, hc, rfl⟩ := decimalWidth_inv cs w h
  have hwidth : runWidth isDigitOrBar rest + 1 + n = (runWidth isDigitOrBar rest + n) + 1 := by omega
  rw [hwidth, List.take_succ_cons]
  refine ⟨List.cons_ne_nil _ _, fun he => ?_⟩
  cases he
  exact absurd hc (by decide)

theorem not_mem_of_decimalWidth (cs : List Char) (w : Nat) (h : decimalWidth cs = some w) :
    '(' ∉ cs.take w := by
  obtain ⟨c, rest, rfl, hc, rfl⟩ := decimalWidth_inv cs w h
  rw [List.take_succ_cons, List.mem_cons, not_or]
  refine ⟨?_, not_mem_take_runWidth isDigitOrBar '(' (by decide) rest⟩
  rintro rfl
  exact absurd hc (by decide)

theorem flatText_of_basedWidth (mark : Char) (digit : Char → Bool) (cs : List Char) (w : Nat)
    (hmark : mark ≠ '(') (hdigit : digit '(' = false) (h : basedWidth mark digit cs = some w) :
    FlatText (cs.take w) := by
  unfold basedWidth at h
  split at h
  · rename_i m rest
    dsimp only at h
    split at h
    · rename_i hm
      cases h
      rw [List.take_succ_cons, List.take_succ_cons]
      have hsame : m = mark := by simpa using (Bool.and_eq_true_iff.mp hm).1
      refine flatText_of_not_mem _ (List.cons_ne_nil _ _) ?_ (by simp)
      rw [List.mem_cons, List.mem_cons, not_or, not_or, hsame]
      exact ⟨by decide, Ne.symm hmark, not_mem_take_runWidth digit '(' hdigit rest⟩
    · cases h
  · cases h

theorem flat_integer : Flat integer := by
  intro before cs w hw
  simp only [integer, Option.or_eq_some_iff] at hw
  rcases hw with hw | ⟨_, hw | ⟨_, hw | ⟨_, hw⟩⟩⟩
  · exact flatText_of_basedWidth 'x' isHexOrBar cs w (by decide) (by decide) hw
  · exact flatText_of_basedWidth 'o' isOctalOrBar cs w (by decide) (by decide) hw
  · exact flatText_of_basedWidth 'b' isBinaryOrBar cs w (by decide) (by decide) hw
  · unfold wholeWidth at hw
    split at hw
    · cases hw
    · rename_i width hwidth
      split at hw
      · cases hw
      · cases hw
        have hhead := head_of_decimalWidth cs w hwidth 0
        exact flatText_of_not_mem _ hhead.1 (not_mem_of_decimalWidth cs w hwidth) hhead.2

theorem not_mem_exponentWidth (cs : List Char) : '(' ∉ cs.take (exponentWidth cs) := by
  unfold exponentWidth
  split
  · simp
  · rename_i e cs
    split
    · rename_i he
      dsimp only
      generalize hsign : (if cs.head?.any fun s => s == '+' || s == '-' then 1 else 0) = sign
      have hfirst : '(' ∉ cs.take sign := by
        split at hsign
        · rename_i hs
          subst hsign
          cases cs with
          | nil => simp
          | cons c cs =>
            rw [List.take_succ_cons, List.take_zero, List.mem_singleton]
            rintro rfl
            simp at hs
        · subst hsign
          simp
      split
      · simp
      · rw [List.take_succ_cons, List.mem_cons, not_or, Nat.add_comm]
        refine ⟨?_, not_mem_takeParts _ _ _ _ hfirst
          (not_mem_take_runWidth Char.isDigit '(' (by decide) _)⟩
        rintro rfl
        rcases he with he | he <;> cases he
    · simp

theorem flat_float : Flat float := by
  intro before cs w hw
  unfold float at hw
  split at hw
  · cases hw
  · rename_i whole hwhole
    dsimp only at hw
    split at hw
    · rename_i hfraction
      obtain ⟨d, rest, hdrop⟩ : ∃ d rest, cs.drop whole = '.' :: d :: rest := by
        unfold startsFraction at hfraction
        split at hfraction
        · rename_i d rest hdrop
          exact ⟨d, rest, hdrop⟩
        · cases hfraction
      cases hw
      have hdigits : '(' ∉ (cs.drop whole).take
          (runWidth isDigitOrBar ((cs.drop whole).drop 1) + 1) := by
        rw [hdrop, List.take_succ_cons, List.mem_cons, not_or, List.drop_one, List.tail_cons]
        exact ⟨by decide, not_mem_take_runWidth isDigitOrBar '(' (by decide) _⟩
      have hhead := head_of_decimalWidth cs whole hwhole
      rw [Nat.add_assoc whole]
      refine flatText_of_not_mem _ ?_ ?_ ?_
      · rw [Nat.add_assoc]
        exact (hhead _).1
      · exact not_mem_takeParts _ _ _ _ (not_mem_takeParts _ _ _ _
          (not_mem_of_decimalWidth cs whole hwhole) hdigits) (not_mem_exponentWidth _)
      · rw [Nat.add_assoc]
        exact (hhead _).2
    · cases hw

/-! ### Line ends, blanks and comments -/

theorem lineParen_cons_iff (c : Char) (m : List Char) :
    LineParen (c :: m) ↔ (c = '\n' ∧ m.head? = some '(') ∨ LineParen m := by
  have hhead : ['('] <+: m ↔ m.head? = some '(' := by
    cases m with
    | nil => simp
    | cons d m =>
      simp only [List.cons_prefix_cons, List.nil_prefix, and_true, List.head?_cons,
        Option.some.injEq]
      exact eq_comm
  unfold LineParen
  rw [List.infix_cons_iff, List.cons_prefix_cons, hhead, eq_comm (a := '\n')]

theorem lineParen_append (first second : List Char) (hfirst : ¬ LineParen first)
    (hsecond : '\n' ∉ second) (hhead : second.head? ≠ some '(') : ¬ LineParen (first ++ second) := by
  induction first with
  | nil => exact fun h => hsecond (mem_of_lineParen _ h).1
  | cons c first ih =>
    rw [lineParen_cons_iff, not_or] at hfirst
    rw [List.cons_append, lineParen_cons_iff]
    rintro (⟨hc, hnext⟩ | h)
    · cases first with
      | nil => exact hhead hnext
      | cons d first => exact hfirst.1 ⟨hc, hnext⟩
    · exact ih hfirst.2 h

theorem take_lineEndsWidth (inComment : Bool) (cs : List Char) :
    ¬ LineParen (cs.take (lineEndsWidth inComment cs)) ∧
      (inComment = false → (cs.take (lineEndsWidth inComment cs)).head? ≠ some '(') := by
  have hnil : ¬ LineParen [] ∧ (inComment = false → ([] : List Char).head? ≠ some '(') :=
    ⟨fun h => by simpa using (mem_of_lineParen _ h).1, fun _ => by simp⟩
  induction cs generalizing inComment with
  | nil => simpa [lineEndsWidth] using hnil
  | cons c cs ih =>
    have hstep : ∀ next, (c = '\n' → next = false) →
        ¬ LineParen (c :: cs.take (lineEndsWidth next cs)) := by
      intro next hnext
      have hrest := ih next ⟨hnil.1, fun _ => by simp⟩
      rw [lineParen_cons_iff]
      rintro (⟨hc, hhead⟩ | h)
      · exact hrest.2 (hnext hc) hhead
      · exact hrest.1 h
    cases inComment with
    | true =>
      rw [lineEndsWidth, List.take_succ_cons]
      exact ⟨hstep _ fun hc => by simp [hc], fun h => by cases h⟩
    | false =>
      rw [lineEndsWidth]
      split
      · rename_i hc
        rw [List.take_succ_cons]
        refine ⟨hstep false fun _ => rfl, fun _ he => ?_⟩
        cases he
        rcases hc with hc | hc | hc <;> cases hc
      · split
        · rename_i hc
          rw [List.take_succ_cons]
          refine ⟨hstep false fun _ => rfl, fun _ he => ?_⟩
          cases he
          cases hc.1
        · split
          · rename_i hc
            rw [List.take_succ_cons]
            refine ⟨hstep true fun he => ?_, fun _ he => ?_⟩
            · rw [hc] at he
              cases he
            · cases he
              cases hc
          · simpa using hnil

theorem flat_lineEnds : Flat lineEnds := by
  intro before cs w hw
  obtain ⟨c, rest, hcs, hc, hwidth⟩ : ∃ c rest, cs = c :: rest ∧ (c = '\n' ∨ c = '\r') ∧
      w = lineEndsWidth false cs ∧ 0 < w := by
    unfold lineEnds at hw
    split at hw
    · cases hw
      exact ⟨_, _, rfl, .inl rfl, rfl, by simp [lineEndsWidth]⟩
    · cases hw
      exact ⟨_, _, rfl, .inr rfl, rfl, by simp [lineEndsWidth]⟩
    · cases hw
  obtain ⟨n, rfl⟩ : ∃ n, w = n + 1 := ⟨w - 1, by omega⟩
  have hflat := take_lineEndsWidth false cs
  rw [← hwidth.1] at hflat
  refine ⟨?_, hflat.2 rfl, ?_, hflat.1⟩
  · rw [hcs, List.take_succ_cons]
    exact List.cons_ne_nil _ _
  · rw [hcs, List.take_succ_cons]
    intro he
    cases he
    rcases hc with hc | hc <;> cases hc

theorem take_ignoredWidth (inComment : Bool) (cs : List Char) :
    '\n' ∉ cs.take (Cursor.ignoredWidth inComment cs) ∧
      (inComment = false → ∀ c, (cs.take (Cursor.ignoredWidth inComment cs)).head? = some c →
        c = ' ' ∨ c = '\t' ∨ c = '\x0c' ∨ c = '#') := by
  induction cs generalizing inComment with
  | nil => simp [Cursor.ignoredWidth]
  | cons c cs ih =>
    cases inComment with
    | true =>
      rw [Cursor.ignoredWidth]
      split
      · simp
      · rename_i hc
        rw [List.take_succ_cons, List.mem_cons, not_or]
        exact ⟨⟨Ne.symm hc, (ih true).1⟩, fun h => by cases h⟩
    | false =>
      rw [Cursor.ignoredWidth]
      split
      · rename_i hc
        rw [List.take_succ_cons, List.mem_cons, not_or]
        refine ⟨⟨?_, (ih false).1⟩, fun _ d hd => ?_⟩
        · rintro rfl
          rcases hc with hc | hc | hc <;> cases hc
        · cases hd
          rcases hc with hc | hc | hc <;> simp [hc]
      · split
        · rename_i hc
          rw [List.take_succ_cons, List.mem_cons, not_or]
          refine ⟨⟨?_, (ih true).1⟩, fun _ d hd => ?_⟩
          · rintro rfl
            cases hc
          · cases hd
            simp [hc]
        · simp

/-! ### Names -/

theorem take_nameWidth (first more : Char → Bool) (bad : Char) (cs : List Char) (w : Nat)
    (hfirst : first bad = false) (hmore : more bad = false)
    (hbad : (bad == '?' || bad == '!') = false)
    (h : nameWidth first more cs = some w) : cs.take w ≠ [] ∧ bad ∉ cs.take w := by
  cases cs with
  | nil => cases h
  | cons c cs =>
    simp only [nameWidth] at h
    split at h
    · rename_i hc
      have hne : bad ≠ c := by
        rintro rfl
        rw [hfirst] at hc
        cases hc
      have hrun := not_mem_take_runWidth more bad hmore cs
      split at h
      · rename_i hmark
        cases h
        rw [List.take_succ_cons]
        refine ⟨List.cons_ne_nil _ _, ?_⟩
        rw [List.mem_cons, not_or]
        refine ⟨hne, not_mem_takeParts _ _ _ _ hrun ?_⟩
        cases hrest : cs.drop (runWidth more cs) with
        | nil => simp
        | cons d rest =>
          rw [hrest, List.head?_cons, Option.any_some] at hmark
          rw [List.take_succ_cons, List.take_zero, List.mem_singleton]
          rintro rfl
          rw [hbad] at hmark
          cases hmark
      · cases h
        rw [List.take_succ_cons]
        refine ⟨List.cons_ne_nil _ _, ?_⟩
        rw [List.mem_cons, not_or]
        exact ⟨hne, hrun⟩
    · cases h

/-- A name ends in front of a parenthesis. -/
theorem nameWidth_append_paren (first more : Char → Bool) (c : Char) (word rest : List Char)
    (hfirst : first c = true) (hword : ∀ d ∈ word, more d = true) (hmore : more '(' = false) :
    nameWidth first more (c :: word ++ '(' :: rest) = some (word.length + 1) := by
  have hwidth : runWidth more (word ++ '(' :: rest) = word.length := by
    rw [runWidth, List.takeWhile_append_of_pos hword, List.takeWhile_cons_of_neg (by simp [hmore]),
      List.append_nil]
  rw [List.cons_append, nameWidth, if_pos hfirst]
  dsimp only
  rw [hwidth, List.drop_left, List.head?_cons, if_neg (by simp)]

/-- Characters of a name, with an underscore in front. -/
structure BarWord (word : List Char) : Prop where
  head : word.head? = some '_'
  chars : ∀ c ∈ word, isNameChar c = true

theorem BarWord.cons (word : List Char) (h : BarWord word) :
    ∃ rest, word = '_' :: rest ∧ ∀ c ∈ rest, isNameChar c = true := by
  cases word with
  | nil => cases h.head
  | cons c rest =>
    have hc : c = '_' := Option.some.inj h.head
    exact ⟨rest, by rw [hc], fun d hd => h.chars d (List.mem_cons_of_mem _ hd)⟩

theorem keywordWidth_bar (word : String) (rest : List Char) (h : isFlatWord word = true) :
    keywordWidth word ('_' :: rest) = none := by
  cases hw : keywordWidth word ('_' :: rest) with
  | none => rfl
  | some w =>
    have hflat := flatText_of_isFlatWord word h
    rw [← take_keywordWidth word _ w hw] at hflat
    cases w with
    | zero => exact absurd rfl hflat.ne_nil
    | succ w => exact absurd rfl hflat.head_bar

theorem name_barWord (before : Option Char) (word rest : List Char) (h : BarWord word) :
    name before (word ++ '(' :: rest) = some word.length := by
  obtain ⟨tail, rfl, htail⟩ := h.cons
  have hreserved : (reserved.any fun word => (keywordWidth word ('_' :: tail ++ '(' :: rest)).isSome) =
      false := by
    rw [List.any_eq_false]
    intro word hm
    have hall : ∀ word ∈ reserved, isFlatWord word = true := by decide
    rw [List.cons_append, keywordWidth_bar word _ (hall word hm)]
    simp
  rw [name, hreserved, if_neg (by simp)]
  exact nameWidth_append_paren _ _ '_' tail rest (by decide) htail (by decide)

theorem take_name (before : Option Char) (bad : Char) (cs : List Char) (w : Nat)
    (hfirst : (bad.isLower || bad == '_') = false) (hmore : isNameChar bad = false)
    (hbad : (bad == '?' || bad == '!') = false)
    (h : name before cs = some w) : cs.take w ≠ [] ∧ bad ∉ cs.take w := by
  unfold name at h
  split at h
  · cases h
  · exact take_nameWidth _ _ bad cs w hfirst hmore hbad h

end LineScope.Grammar.Terminal
