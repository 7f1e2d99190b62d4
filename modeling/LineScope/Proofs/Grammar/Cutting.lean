import LineScope.Grammar.Parse
import LineScope.Proofs.Grammar.Piece
import LineScope.Proofs.Grammar.Steady

/-!
# Accepted sources have nested readings

Every token is cut into pieces.  So a derivation cuts its source into pieces, and the words that
open and close blocks are nested: a reading of an accepted source closes every block that it opens.
-/

namespace LineScope.Grammar

open LineScope.Text Terminal Piece

/-! ### Fixed texts and words -/

theorem cuts_of_take (text : List Char) (h : SymbolText text) {cs : List Char} {w : Nat}
    (htake : cs.take w = text) : Cuts cs w :=
  Cuts.symbols (htake ▸ h)

theorem symbolText_fixed : ∀ text ∈ fixedTexts, SymbolText text.toList := by decide

theorem symbolText_bracket : SymbolText "(".toList ∧ SymbolText "[".toList := by decide

theorem head_of_keywordWidth (word : String) (cs : List Char) (w : Nat)
    (h : keywordWidth word cs = some w) : (cs.drop w).head?.any continuesWord = false := by
  unfold keywordWidth at h
  split at h
  · cases h
  · split at h
    · cases h
    · rename_i hstop
      cases h
      exact Bool.eq_false_iff.mpr hstop

theorem inName_of_not_continues (behind : List Char)
    (h : behind.head?.any continuesWord = false) : behind.head?.any inName = false := by
  cases behind with
  | nil => rfl
  | cons c cs =>
    simp only [List.head?_cons, Option.any_some, continuesWord, Bool.or_eq_false_iff] at h
    simp only [List.head?_cons, Option.any_some, inName, Bool.or_eq_false_iff]
    refine ⟨⟨?_, h.1.1.2⟩, h.1.2⟩
    by_contra hname
    have hword := isWord_of_isNameChar c (Bool.not_eq_false _ ▸ hname)
    rw [h.1.1.1] at hword
    cases hword

/-- The words of the grammar besides those of blocks. -/
def freeWords : List String := plainWords ++ ["when", "or", "and"] ++ blockLabels

theorem cuts_word (word : String) (hword : word ∈ freeWords) (cs : List Char) (w : Nat)
    (h : keywordWidth word cs = some w) : Cuts cs w := by
  have htake := take_keywordWidth word cs w h
  have hchars : ∀ word ∈ freeWords, word.toList ≠ [] ∧ word.toList.all isNameChar = true := by
    decide
  have hfalse : ∀ word ∈ freeWords, word.toList.head?.any startsOpener = true → word = "false" := by
    decide
  obtain ⟨hne, hname⟩ := hchars word hword
  have hbehind := inName_of_not_continues _ (head_of_keywordWidth word cs w h)
  refine Cuts.code ?_
  rw [htake, ← List.append_nil word.toList]
  refine codeText_of_hides _ [] _ hne (fun c hc => ?_) (.inl rfl) fun hstart => ?_
  · exact hidesBlockWord_of_isNameChar c (List.all_eq_true.mp hname c hc)
  rw [List.append_nil]
  obtain rfl := hfalse word hword hstart
  exact ⟨List.all_eq_true.mp rfl, rfl, rfl, fun _ => hbehind⟩

theorem cuts_operator (op : Operator) (hop : op ∈ Operator.all) (cs : List Char) (w : Nat)
    (h : op.width cs = some w) : Cuts cs w := by
  have hall : ∀ op ∈ Operator.all,
      if op.isWord = true then op.text ∈ freeWords else SymbolText op.text.toList := by decide
  have hkind := hall op hop
  unfold Operator.width at h
  split at h
  · rename_i hword
    rw [if_pos hword] at hkind
    exact cuts_word op.text hkind cs w h
  · rename_i hword
    rw [if_neg hword] at hkind
    exact cuts_of_take _ hkind (take_textNotBefore _ _ cs w h)

theorem cuts_sign (before : Option Char) (cs : List Char) (w : Nat)
    (h : sign before cs = some w) : Cuts cs w := by
  simp only [sign, Option.or_eq_some_iff] at h
  rcases h with h | ⟨_, h | ⟨_, h | ⟨_, h⟩⟩⟩
  · exact cuts_of_take "-".toList (by decide) (take_textNotBefore _ _ cs w h)
  · exact cuts_of_take "+".toList (by decide) (take_textNotBefore _ _ cs w h)
  · exact cuts_of_take "!".toList (by decide) (take_textNotBefore _ _ cs w h)
  · exact cuts_of_take "^".toList (by decide) (take_textWidth _ cs w h)

/-! ### Names -/

/-- A name is a run of name characters with a mark behind it or none. -/
theorem nameWidth_inv (first more : Char → Bool) (cs : List Char) (w : Nat)
    (h : nameWidth first more cs = some w) :
    ∃ c rest mark, first c = true ∧ (∀ d ∈ rest, more d = true) ∧
      cs.take w = c :: rest ++ mark ∧ cs.head? = some c ∧
      ((mark = [] ∧ (cs.drop w).head?.any (fun d => more d || d == '?' || d == '!') = false) ∨
        mark = ['?'] ∨ mark = ['!']) := by
  cases cs with
  | nil => cases h
  | cons c cs =>
    have hrun : ∀ d ∈ cs.takeWhile more, more d = true := fun d hd => List.mem_takeWhile_imp hd
    have hstop := head_drop_runWidth more cs
    simp only [nameWidth] at h
    split at h
    · rename_i hc
      split at h
      · rename_i hmark
        cases h
        obtain ⟨d, behind, hdrop⟩ : ∃ d behind, cs.drop (runWidth more cs) = d :: behind := by
          cases hdrop : cs.drop (runWidth more cs) with
          | nil =>
            rw [hdrop] at hmark
            cases hmark
          | cons d behind => exact ⟨d, behind, rfl⟩
        refine ⟨c, cs.takeWhile more, [d], hc, hrun, ?_, rfl, ?_⟩
        · rw [List.take_succ_cons, List.take_add, hdrop, take_runWidth]
          rfl
        · rw [hdrop, List.head?_cons, Option.any_some, Bool.or_eq_true, beq_iff_eq, beq_iff_eq] at hmark
          rcases hmark with rfl | rfl
          · exact .inr (.inl rfl)
          · exact .inr (.inr rfl)
      · rename_i hmark
        cases h
        refine ⟨c, cs.takeWhile more, [], hc, hrun, ?_, rfl, .inl ⟨rfl, ?_⟩⟩
        · rw [List.take_succ_cons, take_runWidth, List.append_nil]
        · rw [List.drop_succ_cons]
          cases hdrop : cs.drop (runWidth more cs) with
          | nil => rfl
          | cons d behind =>
            rw [hdrop, List.head?_cons, Option.any_some] at hstop hmark
            rw [List.head?_cons, Option.any_some, Bool.or_assoc, hstop, Bool.false_or]
            exact Bool.eq_false_iff.mpr hmark
    · cases h

theorem cuts_nameWidth (first : Char → Bool) (hfirst : ∀ c, first c = true → isNameChar c = true)
    (cs : List Char) (w : Nat) (h : nameWidth first isNameChar cs = some w)
    (hdo : keywordWidth "do" cs = none) (hfn : keywordWidth "fn" cs = none) : Cuts cs w := by
  obtain ⟨c, rest, mark, hc, hrest, htake, -, hmark⟩ := nameWidth_inv first isNameChar cs w h
  have hbase : ∀ d ∈ c :: rest, isNameChar d = true := by
    intro d hd
    rcases List.mem_cons.mp hd with rfl | hd
    · exact hfirst d hc
    · exact hrest d hd
  have hmarks : mark = [] ∨ mark = ['?'] ∨ mark = ['!'] := hmark.imp_left (·.1)
  have hcs : c :: rest ++ mark ++ cs.drop w = cs := by rw [← htake, List.take_append_drop]
  refine Cuts.code ?_
  rw [htake]
  refine codeText_of_hides _ mark _ (List.cons_ne_nil _ _)
    (fun d hd => hidesBlockWord_of_isNameChar d (hbase d hd)) hmarks
    fun _ => ⟨fun d hd => ?_, ?_, ?_, ?_⟩
  · rcases List.mem_append.mp hd with hd | hd
    · rw [inName, hbase d hd]
      rfl
    · rcases hmarks with rfl | rfl | rfl
      · cases hd
      · rw [List.mem_singleton.mp hd]
        rfl
      · rw [List.mem_singleton.mp hd]
        rfl
  · rw [hcs, hdo]
  · rw [hcs, hfn]
  · intro hlast
    rcases hmark with ⟨-, hstop⟩ | rfl | rfl
    · exact hstop
    · rw [List.getLast?_concat] at hlast
      cases hlast
    · rw [List.getLast?_concat] at hlast
      cases hlast

theorem isNameChar_of_isAlphanum (c : Char) (h : c.isAlphanum = true) : isNameChar c = true := by
  rw [isNameChar, h, Bool.true_or]

theorem isNameChar_of_isAlpha (c : Char) (h : c.isAlpha = true) : isNameChar c = true :=
  isNameChar_of_isAlphanum c (Bool.or_eq_true_iff.mpr (.inl h))

theorem isNameChar_of_isDigit (c : Char) (h : c.isDigit = true) : isNameChar c = true :=
  isNameChar_of_isAlphanum c (Bool.or_eq_true_iff.mpr (.inr h))

theorem isNameChar_of_isUpper (c : Char) (h : c.isUpper = true) : isNameChar c = true :=
  isNameChar_of_isAlpha c (Bool.or_eq_true_iff.mpr (.inl h))

theorem isNameChar_of_isLower (c : Char) (h : c.isLower = true) : isNameChar c = true :=
  isNameChar_of_isAlpha c (Bool.or_eq_true_iff.mpr (.inr h))

theorem isNameChar_of_lower (c : Char) (h : (c.isLower || c == '_') = true) : isNameChar c = true := by
  rcases Bool.or_eq_true_iff.mp h with h | h
  · exact isNameChar_of_isLower c h
  · rw [isNameChar, h, Bool.or_true]

theorem isNameChar_of_start (c : Char) (h : isNameStart c = true) : isNameChar c = true := by
  rcases Bool.or_eq_true_iff.mp h with h | h
  · exact isNameChar_of_isAlpha c h
  · rw [isNameChar, h, Bool.or_true]

theorem cuts_name (before : Option Char) (cs : List Char) (w : Nat)
    (h : name before cs = some w) : Cuts cs w := by
  unfold name at h
  split at h
  · cases h
  · rename_i hreserved
    have hnone : ∀ word ∈ reserved, keywordWidth word cs = none := by
      intro word hword
      cases hk : keywordWidth word cs with
      | none => rfl
      | some k =>
        refine absurd (List.any_eq_true.mpr ⟨word, hword, ?_⟩) hreserved
        rw [hk]
        rfl
    exact cuts_nameWidth _ isNameChar_of_lower cs w h (hnone "do" (by decide)) (hnone "fn" (by decide))

theorem startsOpener_eq_false {p : Char → Bool} (hd : p 'd' = false) (hf : p 'f' = false) (c : Char)
    (h : p c = true) : startsOpener c = false := by
  by_contra hne
  simp only [Bool.not_eq_false, startsOpener, Bool.or_eq_true, beq_iff_eq] at hne
  rcases hne with rfl | rfl
  · exact absurd h (Bool.eq_false_iff.mp hd)
  · exact absurd h (Bool.eq_false_iff.mp hf)

/-- A run of name characters that starts like no word of a block. -/
theorem cuts_run (c : Char) (cs : List Char) (w : Nat) (hc : isNameChar c = true)
    (hopener : startsOpener c = false) (h : ∀ d ∈ cs.take w, isNameChar d = true) :
    Cuts (c :: cs) (w + 1) := by
  refine Cuts.code ?_
  rw [List.take_succ_cons, ← List.append_nil (c :: _)]
  refine codeText_of_hides _ [] _ (List.cons_ne_nil _ _) (fun d hd => ?_) (.inl rfl)
    fun hstart => ?_
  · refine hidesBlockWord_of_isNameChar d ?_
    rcases List.mem_cons.mp hd with rfl | hd
    · exact hc
    · exact h d hd
  · exact absurd hstart (Bool.eq_false_iff.mp hopener)

theorem cuts_aliasSegment (before : Option Char) (cs : List Char) (w : Nat)
    (h : aliasSegment before cs = some w) : Cuts cs w := by
  cases cs with
  | nil => cases h
  | cons c cs =>
    simp only [aliasSegment] at h
    split at h
    · rename_i hc
      cases h
      have hopener := startsOpener_eq_false (p := Char.isUpper) (by decide) (by decide) c hc
      refine cuts_run c cs _ (isNameChar_of_isUpper c hc) hopener fun d hd => ?_
      rw [take_runWidth] at hd
      exact List.mem_takeWhile_imp hd
    · cases h

/-! ### Keys and atoms -/

/-- A word that opens a block is a name of the same width. -/
theorem nameWidth_of_keyword (word : String) (c : Char) (more : List Char)
    (hword : word.toList = c :: more) (hmore : ∀ d ∈ more, isNameChar d = true)
    (cs : List Char) (k w : Nat) (hk : keywordWidth word cs = some k)
    (hw : nameWidth isNameStart isNameChar cs = some w) : cs.drop w = cs.drop k := by
  have htake := take_keywordWidth word cs k hk
  have hstop := inName_of_not_continues _ (head_of_keywordWidth word cs k hk)
  have hcs : cs = c :: (more ++ cs.drop k) := by
    rw [← List.cons_append, ← hword, ← htake, List.take_append_drop]
  have hwidth : runWidth isNameChar (more ++ cs.drop k) = more.length := by
    rw [runWidth, List.takeWhile_append_of_pos hmore]
    cases hdrop : cs.drop k with
    | nil => simp
    | cons d behind =>
      rw [hdrop, List.head?_cons, Option.any_some, inName, Bool.or_eq_false_iff,
        Bool.or_eq_false_iff] at hstop
      rw [List.takeWhile_cons_of_neg (by simp [hstop.1.1]), List.append_nil]
  rw [hcs, nameWidth] at hw
  dsimp only at hw
  rw [hwidth, List.drop_left] at hw
  have hmark : ((cs.drop k).head?.any fun m => m == '?' || m == '!') = false := by
    cases hdrop : cs.drop k with
    | nil => rfl
    | cons d behind =>
      rw [hdrop, List.head?_cons, Option.any_some, inName, Bool.or_assoc, Bool.or_eq_false_iff] at hstop
      exact hstop.2
  rw [hmark] at hw
  split at hw
  · cases hw
    conv_lhs => rw [hcs]
    rw [List.drop_succ_cons, List.drop_left]
  · cases hw

theorem cuts_quotedWidth (cs : List Char) (w : Nat) (h : quotedWidth cs = some w) : Cuts cs w := by
  refine Cuts.quoted ?_
  unfold quotedWidth at h
  split at h
  · obtain ⟨v, -, rfl⟩ := Option.map_eq_some_iff.mp h
    rfl
  · cases h

theorem cuts_keywordKey (before : Option Char) (cs : List Char) (w : Nat)
    (h : keywordKey before cs = some w) : Cuts cs w := by
  unfold keywordKey at h
  split at h
  · cases h
  · rename_i width hwidth
    split at h
    · rename_i rest hrest
      split at h
      · cases h
        have hcolon : Cuts (cs.drop width) 1 := by
          rw [hrest]
          exact cuts_blank ':' rest (by decide)
        refine Cuts.append ?_ hcolon
        rcases Option.or_eq_some_iff.mp hwidth with hname | ⟨-, hquoted⟩
        · -- a word of a block in front of the colon would be the whole name, and no colon may follow it
          have hnone : ∀ word c more, word.toList = c :: more → (∀ d ∈ more, isNameChar d = true) →
              keywordWidth word cs = none := by
            intro word c more hword hmore
            cases hk : keywordWidth word cs with
            | none => rfl
            | some k =>
              have hstop := head_of_keywordWidth word cs k hk
              rw [← nameWidth_of_keyword word c more hword hmore cs k width hk hname, hrest] at hstop
              cases hstop
          exact cuts_nameWidth _ isNameChar_of_start cs width hname
            (hnone "do" 'd' ['o'] rfl (List.all_eq_true.mp rfl))
            (hnone "fn" 'f' ['n'] rfl (List.all_eq_true.mp rfl))
        · exact cuts_quotedWidth cs width hquoted
      · cases h
    · cases h

theorem symbolText_atom : ∀ symbol ∈ atomSymbols, SymbolText (':' :: symbol.toList) := by decide

theorem hides_of_atomChar (c : Char) (h : (isNameChar c || c == '@') = true) :
    hidesBlockWord c = true := by
  rcases Bool.or_eq_true_iff.mp h with h | h
  · exact hidesBlockWord_of_isNameChar c h
  · rw [hidesBlockWord, h, Bool.or_true]

theorem cuts_atom (before : Option Char) (cs : List Char) (w : Nat)
    (h : atom before cs = some w) : Cuts cs w := by
  unfold atom at h
  split at h
  · rename_i rest
    obtain ⟨width, hwidth, rfl⟩ := Option.map_eq_some_iff.mp h
    rcases Option.or_eq_some_iff.mp hwidth with hname | ⟨-, hwidth⟩
    · obtain ⟨c, more, mark, hc, hmore, htake, -, hmark⟩ := nameWidth_inv _ _ rest width hname
      refine Cuts.code ?_
      rw [List.take_succ_cons, htake, ← List.cons_append]
      refine codeText_of_hides _ mark _ (List.cons_ne_nil _ _) (fun d hd => ?_)
        (hmark.imp_left (·.1)) (fun hstart => by cases hstart)
      rcases List.mem_cons.mp hd with rfl | hd
      · decide
      · rcases List.mem_cons.mp hd with rfl | hd
        · exact hidesBlockWord_of_isNameChar d (isNameChar_of_start d hc)
        · exact hides_of_atomChar d (hmore d hd)
    · rcases Option.or_eq_some_iff.mp hwidth with hquoted | ⟨-, hsymbol⟩
      · rw [Nat.add_comm]
        exact (cuts_blank ':' rest (by decide)).append (cuts_quotedWidth rest width hquoted)
      · obtain ⟨symbol, hmem, hsymbol⟩ := List.exists_of_findSome?_eq_some hsymbol
        refine cuts_of_take _ (symbolText_atom symbol hmem) ?_
        rw [List.take_succ_cons, take_textWidth symbol rest width hsymbol]
  · cases h

/-! ### Numbers -/

theorem cuts_numeral (c : Char) (cs : List Char) (w : Nat) (hc : c.isDigit = true)
    (h : ∀ d ∈ cs.take w, isNameChar d = true) : Cuts (c :: cs) (w + 1) := by
  have hopener := startsOpener_eq_false (p := Char.isDigit) (by decide) (by decide) c hc
  exact cuts_run c cs w (isNameChar_of_isDigit c hc) hopener h

theorem isNameChar_of_digitOrBar (c : Char) (h : isDigitOrBar c = true) : isNameChar c = true := by
  rcases Bool.or_eq_true_iff.mp h with h | h
  · exact isNameChar_of_isDigit c h
  · rw [isNameChar, h, Bool.or_true]

theorem isNameChar_of_hexOrBar (c : Char) (h : isHexOrBar c = true) : isNameChar c = true := by
  simp only [isHexOrBar, Bool.or_eq_true, Bool.and_eq_true, decide_eq_true_eq] at h
  rcases h with ((h | ⟨ha, hf⟩) | ⟨ha, hf⟩) | h
  · exact isNameChar_of_isDigit c h
  · have hz : c ≤ 'z' := Char.le_trans hf (by decide)
    exact isNameChar_of_isLower c
      (Bool.and_eq_true_iff.mpr ⟨decide_eq_true ha, decide_eq_true hz⟩)
  · have hz : c ≤ 'Z' := Char.le_trans hf (by decide)
    exact isNameChar_of_isUpper c (decide_eq_true ⟨ha, hz⟩)
  · rw [isNameChar, h, Bool.or_true]

theorem cuts_basedWidth (mark : Char) (digit : Char → Bool) (cs : List Char) (w : Nat)
    (hmark : isNameChar mark = true) (hdigit : ∀ c, digit c = true → isNameChar c = true)
    (h : basedWidth mark digit cs = some w) : Cuts cs w := by
  unfold basedWidth at h
  split at h
  · rename_i m rest
    dsimp only at h
    split at h
    · rename_i hm
      cases h
      have hsame : m = mark := by simpa using (Bool.and_eq_true_iff.mp hm).1
      refine cuts_numeral '0' (m :: rest) (runWidth digit rest + 1) (by decide) fun d hd => ?_
      rw [List.take_succ_cons, take_runWidth] at hd
      rcases List.mem_cons.mp hd with rfl | hd
      · exact hsame ▸ hmark
      · exact hdigit d (List.mem_takeWhile_imp hd)
    · cases h
  · cases h

theorem cuts_integer (before : Option Char) (cs : List Char) (w : Nat)
    (h : integer before cs = some w) : Cuts cs w := by
  have hoctal : ∀ c, isOctalOrBar c = true → isNameChar c = true := by
    intro c hc
    refine isNameChar_of_digitOrBar c ?_
    simp only [isOctalOrBar, Bool.or_eq_true, Bool.and_eq_true, decide_eq_true_eq, beq_iff_eq,
      Char.le_def, UInt32.le_iff_toNat_le] at hc
    simp only [isDigitOrBar, Char.isDigit, Bool.or_eq_true, Bool.and_eq_true, decide_eq_true_eq,
      beq_iff_eq, ge_iff_le, UInt32.le_iff_toNat_le]
    exact hc.imp_left fun hd => ⟨hd.1, le_trans hd.2 (by decide)⟩
  have hbinary : ∀ c, isBinaryOrBar c = true → isNameChar c = true := by
    intro c hc
    simp only [isBinaryOrBar, Bool.or_eq_true, beq_iff_eq] at hc
    rcases hc with (rfl | rfl) | rfl <;> decide
  simp only [integer, Option.or_eq_some_iff] at h
  rcases h with h | ⟨_, h | ⟨_, h | ⟨_, h⟩⟩⟩
  · exact cuts_basedWidth 'x' _ cs w (by decide) isNameChar_of_hexOrBar h
  · exact cuts_basedWidth 'o' _ cs w (by decide) hoctal h
  · exact cuts_basedWidth 'b' _ cs w (by decide) hbinary h
  · unfold wholeWidth at h
    split at h
    · cases h
    · rename_i width hwidth
      split at h
      · cases h
      · cases h
        obtain ⟨c, rest, rfl, hc, rfl⟩ := decimalWidth_inv cs w hwidth
        refine cuts_numeral c rest _ hc fun d hd => ?_
        rw [take_runWidth] at hd
        exact isNameChar_of_digitOrBar d (List.mem_takeWhile_imp hd)

/-- A character of a decimal number with a fraction. -/
def inFloat (c : Char) : Bool := isDigitOrBar c || ['.', 'e', 'E', '+', '-'].contains c

theorem free_of_inFloat (c : Char) (h : inFloat c = true) :
    startsOpener c = false ∧ startsNonCode c = false := by
  refine ⟨startsOpener_eq_false (p := inFloat) (by decide) (by decide) c h, ?_⟩
  by_contra hne
  simp only [Bool.not_eq_false, startsNonCode, Bool.or_eq_true, beq_iff_eq] at hne
  rcases hne with (((rfl | rfl) | rfl) | rfl) | rfl <;> exact absurd h (by decide)

theorem forall_take_add {p : Char → Prop} (cs : List Char) (first second : Nat)
    (hfirst : ∀ c ∈ cs.take first, p c) (hsecond : ∀ c ∈ (cs.drop first).take second, p c) :
    ∀ c ∈ cs.take (first + second), p c := by
  intro c hc
  rw [List.take_add] at hc
  rcases List.mem_append.mp hc with hc | hc
  · exact hfirst c hc
  · exact hsecond c hc

theorem inFloat_of_digits (cs : List Char) : ∀ c ∈ cs.take (runWidth isDigitOrBar cs),
    inFloat c = true := by
  intro c hc
  rw [take_runWidth] at hc
  rw [inFloat, List.mem_takeWhile_imp hc]
  rfl

theorem inFloat_exponent (cs : List Char) : ∀ c ∈ cs.take (exponentWidth cs), inFloat c = true := by
  unfold exponentWidth
  split
  · simp
  · rename_i e cs
    split
    · rename_i he
      dsimp only
      generalize hsign : (if cs.head?.any fun s => s == '+' || s == '-' then 1 else 0) = sign
      split
      · simp
      · intro c hc
        rw [List.take_succ_cons] at hc
        rcases List.mem_cons.mp hc with rfl | hc
        · rcases he with rfl | rfl <;> decide
        · rw [Nat.add_comm] at hc
          refine forall_take_add (p := fun c => inFloat c = true) cs sign _ ?_ ?_ c hc
          · split at hsign
            · rename_i hs
              subst hsign
              cases cs with
              | nil => simp
              | cons d cs =>
                rw [List.head?_cons, Option.any_some, Bool.or_eq_true, beq_iff_eq, beq_iff_eq] at hs
                rw [List.take_succ_cons, List.take_zero]
                intro c hc
                rw [List.mem_singleton.mp hc]
                rcases hs with rfl | rfl <;> decide
            · subst hsign
              simp
          · intro c hc
            rw [take_runWidth] at hc
            rw [inFloat, isDigitOrBar, List.mem_takeWhile_imp hc]
            rfl
    · simp

theorem cuts_float (before : Option Char) (cs : List Char) (w : Nat)
    (h : float before cs = some w) : Cuts cs w := by
  unfold float at h
  split at h
  · cases h
  · rename_i whole hwhole
    dsimp only at h
    split at h
    · rename_i hfraction
      cases h
      obtain ⟨d, rest, hdrop⟩ : ∃ d rest, cs.drop whole = '.' :: d :: rest := by
        unfold startsFraction at hfraction
        split at hfraction
        · rename_i d rest hdrop
          exact ⟨d, rest, hdrop⟩
        · cases hfraction
      have hne := head_of_decimalWidth cs whole hwhole
      refine Cuts.symbols (symbolText_of_free _ ?_ fun c hc => free_of_inFloat c ?_)
      · rw [Nat.add_assoc whole, Nat.add_assoc]
        exact (hne _).1
      · revert c
        refine forall_take_add (p := fun c => inFloat c = true) cs _ _ ?_ (inFloat_exponent _)
        rw [Nat.add_assoc]
        refine forall_take_add (p := fun c => inFloat c = true) cs _ _ ?_ ?_
        · obtain ⟨first, more, rfl, hfirst, rfl⟩ := decimalWidth_inv cs whole hwhole
          intro c hc
          rw [List.take_succ_cons] at hc
          rcases List.mem_cons.mp hc with rfl | hc
          · rw [inFloat, isDigitOrBar, hfirst]
            rfl
          · exact inFloat_of_digits more c hc
        · intro c hc
          rw [hdrop, List.drop_one, List.tail_cons, List.take_succ_cons] at hc
          rcases List.mem_cons.mp hc with rfl | hc
          · decide
          · exact inFloat_of_digits _ c hc
    · cases h

theorem cuts_captureArg (before : Option Char) (cs : List Char) (w : Nat)
    (h : captureArg before cs = some w) : Cuts cs w := by
  unfold captureArg at h
  split at h
  · rename_i rest
    dsimp only at h
    split at h
    · cases h
    · cases h
      refine Cuts.symbols (symbolText_of_free _ (by simp) fun c hc => ?_)
      rw [List.take_succ_cons, take_runWidth] at hc
      rcases List.mem_cons.mp hc with rfl | hc
      · decide
      · refine free_of_inFloat c ?_
        rw [inFloat, isDigitOrBar, List.mem_takeWhile_imp hc]
        rfl
  · cases h

/-! ### Texts -/

theorem cuts_quotedText (mark : Char) (hmark : mark = '"' ∨ mark = '\'') (before : Option Char)
    (cs : List Char) (w : Nat) (h : quotedText mark before cs = some w) : Cuts cs w := by
  unfold quotedText at h
  split at h
  · cases h
  · split at h
    · rename_i hc
      obtain ⟨width, -, rfl⟩ := Option.map_eq_some_iff.mp h
      refine Cuts.quoted ?_
      have hsame : _ = mark := of_decide_eq_true (Bool.and_eq_true_iff.mp hc).1
      rw [List.take_succ_cons, List.head?_cons, Option.any_some, hsame]
      rcases hmark with rfl | rfl <;> decide
    · cases h

theorem cuts_heredoc (mark : Char) (hmark : mark = '"' ∨ mark = '\'') (cs : List Char) (w : Nat)
    (h : heredocWidth mark cs = some w) : Cuts cs w := by
  have hwidth := h
  unfold heredocWidth at h
  split at h
  · rename_i hprefix
    obtain ⟨rest, rfl⟩ := List.isPrefixOf_iff_prefix.mp hprefix
    obtain ⟨width, -, rfl⟩ := Option.map_eq_some_iff.mp h
    refine Cuts.literal (by simp [threeOf]) ?_
    rcases hmark with rfl | rfl
    · have hsigil : sigilWidth (threeOf '"' ++ rest) = none := rfl
      rw [nonCodeWidth, hsigil, hwidth]
      rfl
    · have hsigil : sigilWidth (threeOf '\'' ++ rest) = none := rfl
      have hother : heredocWidth '"' (threeOf '\'' ++ rest) = none := rfl
      rw [nonCodeWidth, hsigil, hother, hwidth]
      rfl
  · cases h

theorem cuts_sigil (cs : List Char) (w : Nat) (h : sigilWidth cs = some w) : Cuts cs w := by
  have hwidth := h
  unfold sigilWidth at h
  split at h
  · split at h
    · obtain ⟨body, -, rfl⟩ := Option.map_eq_some_iff.mp h
      refine Cuts.literal (by simp) ?_
      rw [nonCodeWidth, hwidth]
      rfl
    · cases h
  · cases h

theorem cuts_char (before : Option Char) (cs : List Char) (w : Nat)
    (h : char before cs = some w) : Cuts cs w := by
  have hnone : ∀ rest, sigilWidth ('?' :: rest) = none ∧ heredocWidth '"' ('?' :: rest) = none ∧
      heredocWidth '\'' ('?' :: rest) = none ∧ scannedTextWidth '"' ('?' :: rest) = none ∧
      scannedTextWidth '\'' ('?' :: rest) = none := fun rest => ⟨rfl, rfl, rfl, rfl, rfl⟩
  have hscan : ∀ rest, nonCodeWidth ('?' :: rest) =
      (scannedCharWidth ('?' :: rest)).or (commentWidth ('?' :: rest)) := by
    intro rest
    obtain ⟨h1, h2, h3, h4, h5⟩ := hnone rest
    rw [nonCodeWidth, h1, h2, h3, h4, h5]
    rfl
  unfold char at h
  split at h
  · rename_i e rest
    cases h
    -- of an escaped line feed the scan takes the backslash only, and leaves the character early
    by_cases he : inLine e = true
    · refine Cuts.literal (by simp) ?_
      rw [hscan, scannedCharWidth, if_pos he]
      rfl
    · exact Cuts.quoted rfl
  · rename_i c rest hne
    split at h
    · cases h
    · rename_i hc
      cases h
      refine Cuts.literal (by simp) ?_
      have hline : inLine c = true := by
        by_contra hfeed
        have hfeed : c = '\n' := by simpa [inLine] using hfeed
        rw [hfeed] at hc
        exact hc rfl
      rw [hscan]
      unfold scannedCharWidth
      split
      · rename_i hsplit
        cases hsplit
        exact absurd rfl hc
      · rename_i hsplit
        cases hsplit
        rw [if_pos hline]
        rfl
      · rename_i hsplit
        exact absurd rfl (hsplit c rest)
  · cases h

/-- Every token but the words of blocks is cut into pieces. -/
theorem cuts_ordinary (terminal : Terminal) (hterminal : Ordinary terminal) (before : Option Char)
    (cs : List Char) (w : Nat) (h : terminal before cs = some w) : Cuts cs w := by
  have hallowed : ∀ (allowed : Bool) (text : String), SymbolText text.toList →
      (if allowed = true then textWidth text cs else none) = some w → Cuts cs w := by
    intro allowed text htext hw
    split at hw
    · exact cuts_of_take _ htext (take_textWidth text cs w hw)
    · cases hw
  have hrefused : ∀ (refused : Bool) (text : String), SymbolText text.toList →
      (if refused = true then none else textWidth text cs) = some w → Cuts cs w := by
    intro refused text htext hw
    split at hw
    · cases hw
    · exact cuts_of_take _ htext (take_textWidth text cs w hw)
  cases hterminal with
  | fixed text ht => exact cuts_of_take _ (symbolText_fixed text ht) (take_textWidth text cs w h)
  | keyword word hw => exact cuts_word word (by simp [freeWords, hw]) cs w h
  | operator op hop => exact cuts_operator op hop cs w h
  | blockLabel =>
    obtain ⟨word, hmem, hword⟩ := List.exists_of_findSome?_eq_some h
    exact cuts_word word (List.mem_append_right _ hmem) cs w hword
  | name => exact cuts_name before cs w h
  | aliasSegment => exact cuts_aliasSegment before cs w h
  | keywordKey => exact cuts_keywordKey before cs w h
  | atom => exact cuts_atom before cs w h
  | integer => exact cuts_integer before cs w h
  | float => exact cuts_float before cs w h
  | char => exact cuts_char before cs w h
  | quotedText mark hm => exact cuts_quotedText mark hm before cs w h
  | heredoc mark hm => exact cuts_heredoc mark hm cs w h
  | sigil => exact cuts_sigil cs w h
  | captureArg => exact cuts_captureArg before cs w h
  | captureSign =>
    unfold captureSign at h
    split at h
    · split at h
      · cases h
      · cases h
        exact cuts_blank '&' _ (by decide)
    · cases h
  | sign => exact cuts_sign before cs w h
  | callParen => exact hallowed _ "(" symbolText_bracket.1 h
  | groupParen => exact hrefused _ "(" symbolText_bracket.1 h
  | accessBracket => exact hallowed _ "[" symbolText_bracket.2 h
  | listBracket => exact hrefused _ "[" symbolText_bracket.2 h
  | dot => exact cuts_of_take ".".toList (by decide) (take_textNotBefore _ _ cs w h)
  | percent => exact cuts_of_take "%".toList (by decide) (take_textNotBefore _ _ cs w h)
  | lineEnds =>
    unfold lineEnds at h
    split at h
    · cases h
      exact cuts_lineEndsWidth _
    · cases h
      exact cuts_lineEndsWidth _
    · cases h

/-! ### Readings -/

/-- The number of open blocks behind a piece; there must be one to close. -/
def Piece.blocks : Nat → Piece → Option Nat
  | n, .opener _ => some (n + 1)
  | 0, .closer => none
  | n + 1, .closer => some n
  | n, _ => some n

theorem Piece.foldlM_blocks (n : Nat) (pieces : List Piece)
    (h : ∀ piece ∈ pieces, piece.isBlockWord = false) : pieces.foldlM Piece.blocks n = some n := by
  induction pieces with
  | nil => rfl
  | cons piece pieces ih =>
    have hpiece : Piece.blocks n piece = some n := by
      have hword := h piece List.mem_cons_self
      cases piece with
      | opener word => cases hword
      | closer => cases hword
      | _ => simp [Piece.blocks]
    rw [List.foldlM_cons, hpiece]
    exact ih fun other ho => h other (List.mem_cons_of_mem _ ho)

/-- A cut of a source into pieces in which the words of blocks are nested. -/
structure Reading (source : List Char) (pieces : List Piece) : Prop where
  text_eq : textOf pieces = source
  allFit : AllFit [] pieces
  nested : pieces.foldlM Piece.blocks 0 = some 0

/-- A cursor behind pieces that leave a number of blocks open. -/
def Cursor.Behind (source : List Char) (n : Nat) (c : Cursor) : Prop :=
  ∃ pieces, textOf pieces ++ c.rest = source ∧ AllFit c.rest pieces ∧
    pieces.foldlM Piece.blocks 0 = some n

theorem Cursor.rest_advance (n : Nat) (c : Cursor) : (c.advance n).rest = c.rest.drop n := by
  induction n generalizing c with
  | zero => rfl
  | succ n ih =>
    rw [advance, ih, next]
    cases hrest : c.rest with
    | nil => simp [hrest]
    | cons x xs => rfl

theorem Cursor.Behind.over {source : List Char} {n m width : Nat} {c c' : Cursor}
    (h : c.Behind source n) (hrest : c'.rest = c.rest.drop width) (pieces : List Piece)
    (htext : textOf pieces = c.rest.take width) (hfit : AllFit (c.rest.drop width) pieces)
    (hblocks : pieces.foldlM Piece.blocks n = some m) : c'.Behind source m := by
  obtain ⟨earlier, hsource, hearlier, hn⟩ := h
  refine ⟨earlier ++ pieces, ?_, ?_, ?_⟩
  · rw [textOf_append, htext, hrest, List.append_assoc, List.take_append_drop, hsource]
  · rw [hrest, allFit_append, htext, List.take_append_drop]
    exact ⟨hearlier, hfit⟩
  · rw [List.foldlM_append, hn]
    exact hblocks

theorem Cursor.Behind.cut {source : List Char} {n width : Nat} {c : Cursor}
    (h : c.Behind source n) (hcuts : Cuts c.rest width) : (c.advance width).Behind source n := by
  obtain ⟨pieces, hwords, htext, hfit⟩ := hcuts
  exact h.over (c.rest_advance width) pieces htext hfit (Piece.foldlM_blocks n pieces hwords)

theorem Cursor.Behind.skipIgnored {source : List Char} {n : Nat} {c : Cursor}
    (h : c.Behind source n) : c.skipIgnored.Behind source n :=
  h.cut (cuts_ignored c.rest)

/-- A word of a block is a piece of its own. -/
theorem leads_blockWord (source : List Char) (n m : Nat) (word : String) (piece : Piece)
    (htext : piece.text = word.toList) (hblocks : Piece.blocks n piece = some m)
    (hfit : ∀ behind, (keywordWidth word (word.toList ++ behind)).isSome → piece.Fits behind) :
    Rule.Leads (Cursor.Behind source n) (fun _ c => c.Behind source m)
      (Rule.token (.keyword word)) := by
  intro c hc way hw
  unfold Rule.token at hw
  split at hw
  · cases hw
  · rename_i width hwidth
    rw [List.mem_singleton.mp hw]
    have htake := take_keywordWidth word c.rest width hwidth
    have hpiece : piece.text = c.rest.take width := htext.trans htake.symm
    refine Cursor.Behind.skipIgnored (hc.over (c.rest_advance width) [piece] ?_ ⟨?_, trivial⟩ ?_)
    · exact (List.append_nil _).trans hpiece
    · have hrest : word.toList ++ c.rest.drop width = c.rest := by
        rw [← htake, List.take_append_drop]
      refine hfit _ ?_
      show (keywordWidth word (word.toList ++ c.rest.drop width)).isSome = true
      rw [hrest]
      exact Option.isSome_of_eq_some hwidth
    · rw [List.foldlM_cons, hblocks]
      rfl

theorem behind_lawful (source : List Char) :
    (Invariant.ofCursors (Cursor.Behind source) fun _ => True).Lawful where
  toBuilds := Invariant.ofCursors_builds _ _
  ordinary n terminal hterminal := by
    intro c hc way hw
    unfold Rule.token at hw
    split at hw
    · cases hw
    · rename_i width hwidth
      rw [List.mem_singleton.mp hw]
      exact ⟨(hc.cut (cuts_ordinary terminal hterminal _ _ _ hwidth)).skipIgnored, trivial⟩
  opening n word hword := by
    refine (leads_blockWord source n (n + 1) word (.opener word) rfl rfl ?_).behind
      fun _ _ hc => ⟨hc, trivial⟩
    exact fun behind hsome => ⟨hword, hsome⟩
  closing n := leads_blockWord source (n + 1) n "end" .closer rfl rfl fun _ hsome => hsome
  report _ _ _ _ _ _ := by
    intro c hc way hw
    rw [List.mem_singleton.mp hw]
    exact ⟨hc, trivial⟩
  cursorLine _ _ _ := trivial
  tokenLine _ _ _ := trivial
  name _ _ := trivial
  ident _ _ := trivial
  sign _ _ := trivial

/-- A source that is accepted has a reading. -/
theorem exists_reading_of_parse (source file : String) (tree : Node)
    (h : (parse source file).value = .ok tree) : ∃ pieces, Reading source.toList pieces := by
  have hstart : (Cursor.start source.toList).Behind source.toList 0 := ⟨[], rfl, trivial, rfl⟩
  have hways := (behind_lawful source.toList).reads_readProgram source.toList hstart.skipIgnored
  unfold parse at h
  dsimp only at h
  split at h
  · rename_i nodes c hcomplete
    obtain ⟨⟨pieces, htext, hfit, hnested⟩, -⟩ := hways _ (List.mem_of_find?_eq_some hcomplete)
    have hempty : c.rest.isEmpty = true :=
      List.find?_some (p := fun way : List Node × Cursor => way.2.rest.isEmpty) hcomplete
    have hend : c.rest = [] := List.isEmpty_iff.mp hempty
    simp only [hend, List.append_nil] at htext hfit
    exact ⟨pieces, htext, hfit, hnested⟩
  · split at h <;> cases h

end LineScope.Grammar
