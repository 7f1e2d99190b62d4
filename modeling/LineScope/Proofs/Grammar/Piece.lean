import LineScope.Grammar.Opener
import LineScope.Proofs.Grammar.Terminal

/-!
# Sources cut into pieces

A derivation reads a source in pieces: the words that open and close blocks, other code, comments,
and texts.  Each piece says what may stand behind it.  Every token but the words of blocks is cut
into pieces here, and so are blanks and line ends.
-/

namespace LineScope.Grammar

open LineScope.Text Terminal

/-! ### Pieces -/

/-- The characters that texts, sigils, characters and comments start with. -/
def startsNonCode (c : Char) : Bool := c == '"' || c == '\'' || c == '~' || c == '?' || c == '#'

/-- The first letters of the words that open a block. -/
def startsOpener (c : Char) : Bool := c == 'd' || c == 'f'

/-- A character of a name, or a mark at its end. -/
def inName (c : Char) : Bool := isNameChar c || c == '?' || c == '!'

/-- A text in which no word can open a block: the letters that could start one are hidden by the
characters before them. -/
def covered (before : Option Char) : List Char → Bool
  | [] => true
  | c :: cs => (!startsOpener c || before.any hidesBlockWord) && covered (some c) cs

/-- A name that is no word of a block. -/
structure FreeWord (text behind : List Char) : Prop where
  chars : ∀ c ∈ text, inName c = true
  notDo : keywordWidth "do" (text ++ behind) = none
  notFn : keywordWidth "fn" (text ++ behind) = none
  ends : text.getLast?.any isNameChar = true → behind.head?.any inName = false

/-- A piece of code: only its last character can look like the start of something else, and no word
in it opens a block. -/
structure CodeText (text behind : List Char) : Prop where
  ne_nil : text ≠ []
  head : text.head?.any startsNonCode = false
  inner : ∀ c ∈ text.dropLast, startsNonCode c = false
  last : text.getLast?.any startsNonCode = true → text.getLast? = some '~' ∨
    (text.getLast? = some '?' ∧ text.dropLast.getLast?.any hidesBlockWord = true)
  covered : covered text.head? text.tail = true
  word : text.head?.any startsOpener = true → FreeWord text behind

theorem any_eq_false_iff (p : Char → Bool) (text : List Char) :
    text.any p = false ↔ ∀ c ∈ text, p c = false := by
  simp

-- along the text, not over all characters there are
instance (text behind : List Char) : Decidable (FreeWord text behind) :=
  decidable_of_iff (text.all inName = true ∧ keywordWidth "do" (text ++ behind) = none ∧
      keywordWidth "fn" (text ++ behind) = none ∧
      (text.getLast?.any isNameChar = true → behind.head?.any inName = false))
    ⟨fun h => ⟨List.all_eq_true.mp h.1, h.2.1, h.2.2.1, h.2.2.2⟩,
      fun h => ⟨List.all_eq_true.mpr h.chars, h.notDo, h.notFn, h.ends⟩⟩

instance (text behind : List Char) : Decidable (CodeText text behind) :=
  decidable_of_iff (text ≠ [] ∧ text.head?.any startsNonCode = false ∧
      text.dropLast.any startsNonCode = false ∧
      (text.getLast?.any startsNonCode = true → text.getLast? = some '~' ∨
        (text.getLast? = some '?' ∧ text.dropLast.getLast?.any hidesBlockWord = true)) ∧
      Grammar.covered text.head? text.tail = true ∧
      (text.head?.any startsOpener = true → FreeWord text behind))
    ⟨fun h => ⟨h.1, h.2.1, (any_eq_false_iff _ _).mp h.2.2.1, h.2.2.2.1, h.2.2.2.2.1, h.2.2.2.2.2⟩,
      fun h => ⟨h.ne_nil, h.head, (any_eq_false_iff _ _).mpr h.inner, h.last, h.covered, h.word⟩⟩

/-- A piece of a source.  A literal is a text that ends where the scan for blocks lets it end; the
scan may end a quoted text elsewhere. -/
inductive Piece where
  | opener (word : String)
  | closer
  | code (text : List Char)
  | comment (text : List Char)
  | literal (text : List Char)
  | quoted (text : List Char)
deriving DecidableEq, Repr

namespace Piece

def text : Piece → List Char
  | .opener word => word.toList
  | .closer => "end".toList
  | .code text => text
  | .comment text => text
  | .literal text => text
  | .quoted text => text

/-- Whether a piece opens or closes a block. -/
def isBlockWord : Piece → Bool
  | .opener _ => true
  | .closer => true
  | _ => false

/-- Whether a piece is a text. -/
def isText : Piece → Bool
  | .literal _ => true
  | .quoted _ => true
  | _ => false

/-- What a piece is, in front of the text behind it. -/
def Fits (behind : List Char) : Piece → Prop
  | .opener word => (word = "do" ∨ word = "fn") ∧ (keywordWidth word (word.toList ++ behind)).isSome
  | .closer => (keywordWidth "end" ("end".toList ++ behind)).isSome
  | .code text => CodeText text behind
  | .comment text => text.head? = some '#' ∧ '\n' ∉ text ∧
      (behind = [] ∨ behind.head? = some '\n')
  | .literal text => text ≠ [] ∧
      (nonCodeWidth (text ++ behind)).map (text ++ behind).take = some text
  | .quoted text => text.head?.any startsNonCode = true

instance (behind : List Char) : (piece : Piece) → Decidable (piece.Fits behind)
  | .opener word => inferInstanceAs (Decidable ((word = "do" ∨ word = "fn") ∧
      (keywordWidth word (word.toList ++ behind)).isSome))
  | .closer => inferInstanceAs (Decidable ((keywordWidth "end" ("end".toList ++ behind)).isSome = true))
  | .code text => inferInstanceAs (Decidable (CodeText text behind))
  | .comment text => inferInstanceAs (Decidable (text.head? = some '#' ∧ '\n' ∉ text ∧
      (behind = [] ∨ behind.head? = some '\n')))
  | .literal text => inferInstanceAs (Decidable (text ≠ [] ∧
      (nonCodeWidth (text ++ behind)).map (text ++ behind).take = some text))
  | .quoted text => inferInstanceAs (Decidable (text.head?.any startsNonCode = true))

/-- The text of pieces side by side. -/
def textOf (pieces : List Piece) : List Char := pieces.flatMap text

/-- Pieces each of which fits what stands behind it. -/
def AllFit (behind : List Char) : List Piece → Prop
  | [] => True
  | piece :: pieces => piece.Fits (textOf pieces ++ behind) ∧ AllFit behind pieces

instance (behind : List Char) : (pieces : List Piece) → Decidable (AllFit behind pieces)
  | [] => inferInstanceAs (Decidable True)
  | piece :: pieces =>
    have : Decidable (AllFit behind pieces) := instDecidableAllFit behind pieces
    inferInstanceAs (Decidable (piece.Fits (textOf pieces ++ behind) ∧ AllFit behind pieces))

theorem textOf_append (first second : List Piece) :
    textOf (first ++ second) = textOf first ++ textOf second :=
  List.flatMap_append

theorem allFit_append (behind : List Char) (first second : List Piece) :
    AllFit behind (first ++ second) ↔
      AllFit (textOf second ++ behind) first ∧ AllFit behind second := by
  induction first with
  | nil => simp [AllFit]
  | cons piece first ih =>
    rw [List.cons_append, AllFit, AllFit, ih, textOf_append, List.append_assoc, and_assoc]

end Piece

open Piece

/-! ### Texts that are code -/

theorem isWord_of_isNameChar (c : Char) (h : isNameChar c = true) : isWord c = true := by
  rcases Bool.or_eq_true_iff.mp h with h | h
  · exact isWord_of_isAlphanum c h
  · rw [isWord, h]
    simp

theorem hidesBlockWord_of_isNameChar (c : Char) (h : isNameChar c = true) :
    hidesBlockWord c = true := by
  rw [hidesBlockWord, isWord_of_isNameChar c h]
  rfl

theorem startsNonCode_of_hides (c : Char) (h : hidesBlockWord c = true) :
    startsNonCode c = false := by
  by_contra hne
  simp only [Bool.not_eq_false, startsNonCode, Bool.or_eq_true, beq_iff_eq] at hne
  rcases hne with (((rfl | rfl) | rfl) | rfl) | rfl <;> exact absurd h (by decide)

theorem covered_of_free (before : Option Char) (text : List Char)
    (h : ∀ c ∈ text, startsOpener c = false) : covered before text = true := by
  induction text generalizing before with
  | nil => rfl
  | cons c text ih =>
    rw [covered, h c List.mem_cons_self, ih _ fun d hd => h d (List.mem_cons_of_mem _ hd)]
    rfl

/-- Behind characters that hide words all letters are hidden; a mark at the end is no letter. -/
theorem covered_of_hides (before : Option Char) (base mark : List Char)
    (hbefore : before.any hidesBlockWord = true) (hbase : ∀ c ∈ base, hidesBlockWord c = true)
    (hmark : ∀ c ∈ mark, startsOpener c = false) : covered before (base ++ mark) = true := by
  induction base generalizing before with
  | nil => exact covered_of_free before mark hmark
  | cons c base ih =>
    rw [List.cons_append, covered, hbefore, Bool.or_true, Bool.true_and]
    exact ih (some c) (hbase c List.mem_cons_self) fun d hd => hbase d (List.mem_cons_of_mem _ hd)

/-- A text of symbols, of which only the last may look like the start of a sigil. -/
structure SymbolText (text : List Char) : Prop where
  ne_nil : text ≠ []
  free : ∀ c ∈ text, startsOpener c = false
  head : text.head?.any startsNonCode = false
  inner : ∀ c ∈ text.dropLast, startsNonCode c = false
  last : text.getLast?.any startsNonCode = true → text.getLast? = some '~'

instance (text : List Char) : Decidable (SymbolText text) :=
  decidable_of_iff (text ≠ [] ∧ text.any startsOpener = false ∧
      text.head?.any startsNonCode = false ∧ text.dropLast.any startsNonCode = false ∧
      (text.getLast?.any startsNonCode = true → text.getLast? = some '~'))
    ⟨fun h => ⟨h.1, (any_eq_false_iff _ _).mp h.2.1, h.2.2.1, (any_eq_false_iff _ _).mp h.2.2.2.1,
        h.2.2.2.2⟩,
      fun h => ⟨h.ne_nil, (any_eq_false_iff _ _).mpr h.free, h.head,
        (any_eq_false_iff _ _).mpr h.inner, h.last⟩⟩

theorem SymbolText.codeText {text : List Char} (h : SymbolText text) (behind : List Char) :
    CodeText text behind where
  ne_nil := h.ne_nil
  head := h.head
  inner := h.inner
  last hlast := .inl (h.last hlast)
  covered := covered_of_free _ _ fun c hc => h.free c (List.mem_of_mem_tail hc)
  word hword := by
    cases text with
    | nil => cases hword
    | cons c cs =>
      have hfree := h.free c List.mem_cons_self
      rw [List.head?_cons, Option.any_some, hfree] at hword
      cases hword

theorem symbolText_of_free (text : List Char) (hne : text ≠ [])
    (h : ∀ c ∈ text, startsOpener c = false ∧ startsNonCode c = false) : SymbolText text where
  ne_nil := hne
  free c hc := (h c hc).1
  head := by
    cases text with
    | nil => exact absurd rfl hne
    | cons c cs => exact (h c List.mem_cons_self).2
  inner c hc := (h c (List.mem_of_mem_dropLast hc)).2
  last hlast := by
    cases hl : text.getLast? with
    | none =>
      rw [hl] at hlast
      cases hlast
    | some c =>
      rw [hl, Option.any_some, (h c (List.mem_of_getLast? hl)).2] at hlast
      cases hlast

/-- A text of characters that hide words, with a mark behind it or none. -/
theorem codeText_of_hides (base mark behind : List Char) (hne : base ≠ [])
    (hbase : ∀ c ∈ base, hidesBlockWord c = true) (hmark : mark = [] ∨ mark = ['?'] ∨ mark = ['!'])
    (hword : base.head?.any startsOpener = true → FreeWord (base ++ mark) behind) :
    CodeText (base ++ mark) behind := by
  obtain ⟨c, cs, rfl⟩ := List.exists_cons_of_ne_nil hne
  have hcode : ∀ d ∈ c :: cs, startsNonCode d = false :=
    fun d hd => startsNonCode_of_hides d (hbase d hd)
  have hmarkFree : ∀ d ∈ mark, startsOpener d = false := by
    rcases hmark with rfl | rfl | rfl <;> exact (any_eq_false_iff _ _).mp rfl
  have hlast : (c :: cs).getLast?.any hidesBlockWord = true := by
    rw [List.getLast?_eq_some_getLast hne, Option.any_some]
    exact hbase _ (List.getLast_mem hne)
  refine ⟨by simp, hcode c List.mem_cons_self, fun d hd => ?_, fun hd => ?_, ?_, hword⟩
  · have hd' : d ∈ c :: cs := by
      rcases hmark with rfl | rfl | rfl
      · rw [List.append_nil] at hd
        exact List.mem_of_mem_dropLast hd
      · rwa [List.dropLast_concat] at hd
      · rwa [List.dropLast_concat] at hd
    exact hcode d hd'
  · rcases hmark with rfl | rfl | rfl
    · rw [List.append_nil, List.getLast?_eq_some_getLast hne, Option.any_some,
        hcode _ (List.getLast_mem hne)] at hd
      cases hd
    · rw [List.getLast?_concat, List.dropLast_concat]
      exact .inr ⟨rfl, hlast⟩
    · rw [List.getLast?_concat] at hd
      cases hd
  · exact covered_of_hides (some c) cs mark (hbase c List.mem_cons_self)
      (fun d hd => hbase d (List.mem_cons_of_mem _ hd)) hmarkFree

/-! ### Cuts -/

/-- The front of a text is cut into pieces that are no words of blocks. -/
def Cuts (cs : List Char) (width : Nat) : Prop :=
  ∃ pieces, (∀ piece ∈ pieces, piece.isBlockWord = false) ∧ textOf pieces = cs.take width ∧
    AllFit (cs.drop width) pieces

theorem Cuts.zero (cs : List Char) : Cuts cs 0 := ⟨[], nofun, rfl, trivial⟩

theorem Cuts.append {cs : List Char} {first second : Nat} (hfirst : Cuts cs first)
    (hsecond : Cuts (cs.drop first) second) : Cuts cs (first + second) := by
  obtain ⟨pieces, hwords, htext, hfit⟩ := hfirst
  obtain ⟨others, hwords', htext', hfit'⟩ := hsecond
  refine ⟨pieces ++ others, fun piece hp => ?_, ?_, ?_⟩
  · rcases List.mem_append.mp hp with hp | hp
    · exact hwords piece hp
    · exact hwords' piece hp
  · rw [textOf_append, htext, htext', List.take_add]
  · rw [allFit_append, htext', ← List.drop_drop, List.take_append_drop]
    exact ⟨hfit, hfit'⟩

theorem Cuts.piece {cs : List Char} {width : Nat} (piece : Piece)
    (hword : piece.isBlockWord = false) (htext : piece.text = cs.take width)
    (hfit : piece.Fits (cs.drop width)) : Cuts cs width := by
  refine ⟨[piece], fun other ho => ?_, ?_, hfit, trivial⟩
  · rw [List.mem_singleton.mp ho]
    exact hword
  · rw [← htext]
    exact List.append_nil _

theorem Cuts.code {cs : List Char} {width : Nat} (h : CodeText (cs.take width) (cs.drop width)) :
    Cuts cs width :=
  Cuts.piece (.code (cs.take width)) rfl rfl h

theorem Cuts.symbols {cs : List Char} {width : Nat} (h : SymbolText (cs.take width)) :
    Cuts cs width :=
  Cuts.code (h.codeText _)

theorem Cuts.quoted {cs : List Char} {width : Nat}
    (h : (cs.take width).head?.any startsNonCode = true) : Cuts cs width :=
  Cuts.piece (.quoted (cs.take width)) rfl rfl h

theorem Cuts.literal {cs : List Char} {width : Nat} (hne : cs.take width ≠ [])
    (h : nonCodeWidth cs = some width) : Cuts cs width := by
  refine Cuts.piece (.literal (cs.take width)) rfl rfl ⟨hne, ?_⟩
  rw [List.take_append_drop, h]
  rfl

/-! ### Blanks, comments and line ends -/

theorem head_drop_runWidth (p : Char → Bool) (cs : List Char) :
    (cs.drop (runWidth p cs)).head?.any p = false := by
  unfold runWidth
  induction cs with
  | nil => rfl
  | cons c cs ih =>
    by_cases hc : p c = true
    · rw [List.takeWhile_cons_of_pos hc, List.length_cons, List.drop_succ_cons]
      exact ih
    · rw [List.takeWhile_cons_of_neg hc, List.length_nil, List.drop_zero, List.head?_cons,
        Option.any_some]
      exact Bool.eq_false_iff.mpr hc

theorem cuts_comment (cs : List Char) : Cuts ('#' :: cs) (runWidth inLine cs + 1) := by
  refine Cuts.piece (.comment (('#' :: cs).take (runWidth inLine cs + 1))) rfl rfl ⟨rfl, ?_, ?_⟩
  · rw [List.take_succ_cons, List.mem_cons, not_or]
    exact ⟨by decide, not_mem_take_runWidth inLine '\n' rfl cs⟩
  · have hhead := head_drop_runWidth inLine cs
    rw [List.drop_succ_cons]
    cases hrest : cs.drop (runWidth inLine cs) with
    | nil => exact .inl rfl
    | cons c rest =>
      rw [hrest, List.head?_cons, Option.any_some] at hhead
      right
      simpa [inLine] using hhead

theorem ignoredWidth_comment (cs : List Char) :
    Cursor.ignoredWidth true cs = runWidth inLine cs := by
  induction cs with
  | nil => rfl
  | cons c cs ih =>
    rw [Cursor.ignoredWidth, ih, runWidth, runWidth, List.takeWhile_cons]
    by_cases hc : c = '\n'
    · simp [hc, inLine]
    · simp [hc, inLine]

theorem cuts_blank (c : Char) (cs : List Char)
    (h : startsOpener c = false ∧ startsNonCode c = false) : Cuts (c :: cs) 1 := by
  refine Cuts.symbols (symbolText_of_free _ (by simp) fun d hd => ?_)
  rw [List.take_succ_cons, List.take_zero, List.mem_singleton] at hd
  exact hd ▸ h

theorem cuts_ignored (cs : List Char) : Cuts cs (Cursor.ignoredWidth false cs) := by
  induction cs with
  | nil => exact Cuts.zero _
  | cons c cs ih =>
    rw [Cursor.ignoredWidth]
    split
    · rename_i hc
      rw [Nat.add_comm]
      refine (cuts_blank c cs ?_).append ih
      rcases hc with rfl | rfl | rfl <;> decide
    · split
      · rename_i hc
        rw [ignoredWidth_comment, hc]
        exact cuts_comment cs
      · exact Cuts.zero _

theorem lineEndsWidth_comment (cs : List Char) :
    lineEndsWidth true cs =
      runWidth inLine cs + lineEndsWidth false (cs.drop (runWidth inLine cs)) := by
  induction cs with
  | nil => rfl
  | cons c cs ih =>
    by_cases hc : c = '\n'
    · subst hc
      have hwidth : runWidth inLine ('\n' :: cs) = 0 := rfl
      rw [hwidth, List.drop_zero, lineEndsWidth, lineEndsWidth, if_pos (.inl rfl), Nat.zero_add]
      rfl
    · have hin : inLine c = true := by simpa [inLine] using hc
      have hwidth : runWidth inLine (c :: cs) = runWidth inLine cs + 1 := by
        rw [runWidth, runWidth, List.takeWhile_cons_of_pos hin, List.length_cons]
      have hnext : (c != '\n') = true := hin
      rw [hwidth, lineEndsWidth, hnext, ih, List.drop_succ_cons]
      omega

theorem cuts_lineEndsWidth (cs : List Char) : Cuts cs (lineEndsWidth false cs) := by
  induction hn : cs.length using Nat.strong_induction_on generalizing cs with
  | h n ih =>
    cases cs with
    | nil => exact Cuts.zero _
    | cons c cs =>
      have hnext : Cuts cs (lineEndsWidth false cs) :=
        ih cs.length (by rw [← hn, List.length_cons]; omega) cs rfl
      rw [lineEndsWidth]
      split
      · rename_i hc
        rw [Nat.add_comm]
        refine (cuts_blank c cs ?_).append hnext
        rcases hc with rfl | rfl | rfl <;> decide
      · split
        · rename_i hc
          rw [Nat.add_comm]
          refine (cuts_blank c cs ?_).append hnext
          rw [hc.1]
          decide
        · split
          · rename_i hc
            rw [lineEndsWidth_comment, hc, Nat.add_right_comm]
            refine (cuts_comment cs).append (ih _ ?_ _ rfl)
            rw [List.drop_succ_cons, List.length_drop, ← hn, List.length_cons]
            omega
          · exact Cuts.zero _

end LineScope.Grammar
