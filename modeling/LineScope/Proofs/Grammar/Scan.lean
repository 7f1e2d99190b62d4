import LineScope.Proofs.Grammar.Cutting
import LineScope.Proofs.Grammar.Opener

/-!
# The scan for unclosed blocks on plain readings

The scan for unclosed blocks divides a source on its own: it knows nothing of names that end in a
question mark, of operators that end in a tilde, or of interpolations.  On a plain reading it stays in
step with the pieces, sees every word that closes a block, and takes no other word for one that opens
a block.  Then it finds no unclosed block.
-/

namespace LineScope.Grammar

open LineScope.Text Terminal Piece

/-! ### Plain readings -/

/-- A word that opens a block, as the scan sees it. -/
def Opens (before : Option Char) (cs : List Char) : Prop :=
  blockWordAt? before cs = some "do" ∨ blockWordAt? before cs = some "fn"

instance (before : Option Char) (cs : List Char) : Decidable (Opens before cs) :=
  inferInstanceAs (Decidable (_ ∨ _))

/-- No word that opens a block starts within a text, which stands between a character and a text. -/
def Quiet (before : Option Char) (out behind : List Char) : Prop :=
  match out with
  | [] => True
  | c :: cs => ¬ Opens before (c :: cs ++ behind) ∧ Quiet (some c) cs behind

instance instDecidableQuiet (before : Option Char) : (out behind : List Char) →
    Decidable (Quiet before out behind)
  | [], _ => inferInstanceAs (Decidable True)
  | c :: cs, behind =>
    have : Decidable (Quiet (some c) cs behind) := instDecidableQuiet (some c) cs behind
    inferInstanceAs (Decidable (¬ Opens before (c :: cs ++ behind) ∧ Quiet (some c) cs behind))

/-- The words that open a block, and their first letters, as names with a question mark. -/
def openerNames : List (List Char) := ["d?", "do?", "f?", "fn?"].map String.toList

namespace Piece

/-- Whether the scan takes the end of a piece for a question mark in front of a character. -/
def eats (behind : List Char) : Piece → Bool
  | .code text => text.getLast? == some '?' && behind.head?.any inLine
  | _ => false

/-- What the scan leaves of a piece; it may have taken the first character of it with the piece
before. -/
def shown (eaten : Bool) (behind : List Char) (piece : Piece) : List Char :=
  match piece with
  | .comment _ => []
  | .literal text => text.filter (· == '\n')
  | .quoted text =>
    let scanned := blankNonCode 0 (text ++ behind)
    scanned.take (scanned.length - (blankNonCode 0 behind).length)
  | piece =>
    let kept := if eaten then piece.text.tail else piece.text
    if piece.eats behind then kept.dropLast else kept

theorem shown_code (eaten : Bool) (behind text : List Char) :
    (code text).shown eaten behind =
      if (code text).eats behind then (if eaten then text.tail else text).dropLast
      else if eaten then text.tail else text :=
  rfl

/-- A piece that keeps the scan in step.  `eaten` says that the scan has taken the first character of
the piece, `last` is the last character that it has left. -/
def Plain (eaten : Bool) (last : Option Char) (pieces : List Piece) : Piece → Prop
  | .opener _ => True
  | .closer => eaten = false ∧ last.any hidesBlockWord = false ∧
      pieces.head?.any isText = false
  | .code text =>
    (pieces.head?.any isText = true → text.getLast?.any isWord = false) ∧
      (text.getLast? = some '~' → sigilWidth ('~' :: textOf pieces) = none) ∧
      ((code text).eats (textOf pieces) = true →
        (textOf pieces).head? ≠ some '\\' ∧ (eaten = false → text ∉ openerNames))
  | .comment _ => eaten = false
  | .literal _ => eaten = false
  | .quoted text => eaten = false ∧
      blankNonCode 0 (text ++ textOf pieces) =
        (quoted text).shown false (textOf pieces) ++ blankNonCode 0 (textOf pieces) ∧
      Quiet last ((quoted text).shown false (textOf pieces)) (blankNonCode 0 (textOf pieces))

instance (eaten : Bool) (last : Option Char) (pieces : List Piece) :
    (piece : Piece) → Decidable (piece.Plain eaten last pieces)
  | .opener _ => inferInstanceAs (Decidable True)
  | .closer => inferInstanceAs (Decidable (_ ∧ _ ∧ _))
  | .code _ => inferInstanceAs (Decidable ((_ → _) ∧ (_ → _) ∧ (_ → _)))
  | .comment _ => inferInstanceAs (Decidable (_ = _))
  | .literal _ => inferInstanceAs (Decidable (_ = _))
  | .quoted _ => inferInstanceAs (Decidable (_ ∧ _ ∧ _))

/-- Pieces that keep the scan in step one after the other. -/
def PlainFrom (eaten : Bool) (last : Option Char) : List Piece → Prop
  | [] => True
  | piece :: pieces => piece.Plain eaten last pieces ∧
      PlainFrom (piece.eats (textOf pieces))
        ((piece.shown eaten (textOf pieces)).getLast?.or last) pieces

instance instDecidablePlainFrom : (eaten : Bool) → (last : Option Char) → (pieces : List Piece) →
    Decidable (PlainFrom eaten last pieces)
  | _, _, [] => inferInstanceAs (Decidable True)
  | eaten, last, piece :: pieces =>
    have : Decidable (PlainFrom (piece.eats (textOf pieces))
        ((piece.shown eaten (textOf pieces)).getLast?.or last) pieces) :=
      instDecidablePlainFrom _ _ pieces
    inferInstanceAs (Decidable (_ ∧ _))

end Piece

/-! ### Blanking -/

theorem nonCodeWidth_eq_none (c : Char) (cs : List Char) (h : startsNonCode c = false) :
    nonCodeWidth (c :: cs) = none := by
  simp only [startsNonCode, Bool.or_eq_false_iff, beq_eq_false_iff_ne] at h
  obtain ⟨⟨⟨⟨hdouble, hsingle⟩, htilde⟩, hquestion⟩, hhash⟩ := h
  have hsigil : sigilWidth (c :: cs) = none := by
    unfold sigilWidth
    split
    · rename_i heq
      cases heq
      exact absurd rfl htilde
    · rfl
  have hheredoc : ∀ mark, c ≠ mark → heredocWidth mark (c :: cs) = none := by
    intro mark hne
    rw [heredocWidth, if_neg]
    simp [threeOf, List.isPrefixOf, Ne.symm hne]
  have htext : ∀ mark, c ≠ mark → scannedTextWidth mark (c :: cs) = none := by
    intro mark hne
    rw [scannedTextWidth, if_neg hne]
  have hchar : scannedCharWidth (c :: cs) = none := by
    unfold scannedCharWidth
    split
    · rename_i heq
      cases heq
      exact absurd rfl hquestion
    · rename_i heq
      cases heq
      exact absurd rfl hquestion
    · rfl
  have hcomment : commentWidth (c :: cs) = none := by
    unfold commentWidth
    split
    · rename_i heq
      cases heq
      exact absurd rfl hhash
    · rfl
  rw [nonCodeWidth, hsigil, hheredoc _ hdouble, hheredoc _ hsingle, htext _ hdouble,
    htext _ hsingle, hchar, hcomment]
  rfl

theorem blankNonCode_cons (c : Char) (cs : List Char) (h : nonCodeWidth (c :: cs) = none) :
    blankNonCode 0 (c :: cs) = c :: blankNonCode 0 cs := by
  rw [blankNonCode, h]

theorem blankNonCode_append (text behind : List Char)
    (h : ∀ c ∈ text, startsNonCode c = false) :
    blankNonCode 0 (text ++ behind) = text ++ blankNonCode 0 behind := by
  induction text with
  | nil => rfl
  | cons c text ih =>
    rw [List.cons_append, blankNonCode_cons _ _ (nonCodeWidth_eq_none c _ (h c List.mem_cons_self)),
      ih fun d hd => h d (List.mem_cons_of_mem _ hd), List.cons_append]

/-- What is hidden leaves its line feeds. -/
theorem blankNonCode_hidden (hidden : Nat) (cs : List Char) :
    blankNonCode hidden cs =
      (cs.take hidden).filter (· == '\n') ++ blankNonCode 0 (cs.drop hidden) := by
  induction hidden generalizing cs with
  | zero => simp
  | succ hidden ih =>
    cases cs with
    | nil => simp [blankNonCode]
    | cons c cs =>
      rw [blankNonCode, ih cs, List.take_succ_cons, List.drop_succ_cons]
      by_cases hc : c = '\n'
      · simp [hc]
      · simp [hc]

theorem blankNonCode_width (cs : List Char) (width : Nat) (h : nonCodeWidth cs = some width)
    (hwidth : 0 < width) : blankNonCode 0 cs = blankNonCode width cs := by
  obtain ⟨width, rfl⟩ : ∃ n, width = n + 1 := ⟨width - 1, by omega⟩
  cases cs with
  | nil => rfl
  | cons c cs =>
    conv_lhs => rw [blankNonCode, h]
    rw [blankNonCode]
    rfl

theorem blankNonCode_literal (text behind : List Char) (hne : text ≠ [])
    (h : (nonCodeWidth (text ++ behind)).map (text ++ behind).take = some text) :
    blankNonCode 0 (text ++ behind) = text.filter (· == '\n') ++ blankNonCode 0 behind := by
  obtain ⟨width, hwidth, htake⟩ := Option.map_eq_some_iff.mp h
  have hpos : 0 < width := by
    rcases Nat.eq_zero_or_pos width with rfl | hpos
    · exact absurd htake.symm hne
    · exact hpos
  have hdrop : (text ++ behind).drop width = behind := by
    have hsplit := List.take_append_drop width (text ++ behind)
    rw [htake] at hsplit
    exact List.append_cancel_left hsplit
  rw [blankNonCode_width _ _ hwidth hpos, blankNonCode_hidden, htake, hdrop]

theorem nonCodeWidth_comment (cs : List Char) :
    nonCodeWidth ('#' :: cs) = some (runWidth inLine cs + 1) := rfl

theorem blankNonCode_comment (body behind : List Char) (hbody : '\n' ∉ body)
    (hbehind : behind = [] ∨ behind.head? = some '\n') :
    blankNonCode 0 ('#' :: body ++ behind) = blankNonCode 0 behind := by
  have hrun : runWidth inLine (body ++ behind) = body.length := by
    have hin : ∀ c ∈ body, inLine c = true := by
      intro c hc
      have hne : c ≠ '\n' := fun he => hbody (he ▸ hc)
      simpa [inLine] using hne
    rw [runWidth, List.takeWhile_append_of_pos hin]
    cases behind with
    | nil => simp
    | cons c behind =>
      have hc : c = '\n' := by simpa using hbehind
      rw [hc, List.takeWhile_cons_of_neg (by decide), List.append_nil]
  have hfilter : (('#' :: body).filter (· == '\n')) = [] := by
    rw [List.filter_eq_nil_iff]
    intro c hc
    rcases List.mem_cons.mp hc with rfl | hc
    · decide
    · simpa using fun he : c = '\n' => hbody (he ▸ hc)
  have hwidth := nonCodeWidth_comment (body ++ behind)
  rw [hrun] at hwidth
  rw [List.cons_append, blankNonCode_width _ _ hwidth (by omega), blankNonCode_hidden,
    List.take_succ_cons, List.drop_succ_cons, List.take_left, List.drop_left, hfilter]
  rfl

/-- A question mark takes the next character of its line with it. -/
theorem blankNonCode_question (d : Char) (cs : List Char) (hline : inLine d = true)
    (hescape : d ≠ '\\') : blankNonCode 0 ('?' :: d :: cs) = blankNonCode 1 (d :: cs) := by
  have hchar : scannedCharWidth ('?' :: d :: cs) = some 2 := by
    unfold scannedCharWidth
    split
    · rename_i heq
      cases heq
      exact absurd rfl hescape
    · rename_i heq
      cases heq
      rw [if_pos hline]
    · rename_i heq
      exact absurd rfl (heq d cs)
  have hwidth : nonCodeWidth ('?' :: d :: cs) =
      (scannedCharWidth ('?' :: d :: cs)).or (commentWidth ('?' :: d :: cs)) := rfl
  rw [hchar, Option.some_or] at hwidth
  rw [blankNonCode_width _ 2 hwidth (by omega), blankNonCode, if_neg (by decide)]

theorem nonCodeWidth_question (cs : List Char) (h : cs.head?.any inLine = false) :
    nonCodeWidth ('?' :: cs) = none := by
  cases cs with
  | nil => rfl
  | cons c cs =>
    have hc : c = '\n' := by simpa [inLine] using h
    rw [hc]
    rfl

theorem head_blankNonCode (cs : List Char) (h : cs.head?.any startsNonCode = false) :
    (blankNonCode 0 cs).head? = cs.head? := by
  cases cs with
  | nil => rfl
  | cons c cs =>
    rw [blankNonCode_cons _ _ (nonCodeWidth_eq_none c cs h)]
    rfl

/-! ### Code in step -/

/-- Code whose last character, if it looks like the start of something else, is none. -/
theorem blankNonCode_kept (kept behind : List Char)
    (hinner : ∀ c ∈ kept.dropLast, startsNonCode c = false)
    (hlast : ∀ c, kept.getLast? = some c → startsNonCode c = true →
      nonCodeWidth (c :: behind) = none) :
    blankNonCode 0 (kept ++ behind) = kept ++ blankNonCode 0 behind := by
  rcases List.eq_nil_or_concat kept with rfl | ⟨base, c, rfl⟩
  · rfl
  · rw [List.concat_eq_append, List.dropLast_concat] at hinner
    rw [List.concat_eq_append, List.getLast?_concat] at hlast
    have hc : nonCodeWidth (c :: behind) = none := by
      by_cases hstart : startsNonCode c = true
      · exact hlast c rfl hstart
      · exact nonCodeWidth_eq_none c behind (Bool.eq_false_iff.mpr hstart)
    rw [List.concat_eq_append, List.append_assoc, List.singleton_append,
      blankNonCode_append _ _ hinner, blankNonCode_cons _ _ hc, List.append_assoc]
    rfl

/-- Code whose last character is a question mark that takes the next character with it. -/
theorem blankNonCode_kept_eats (kept behind : List Char)
    (hinner : ∀ c ∈ kept.dropLast, startsNonCode c = false) (hlast : kept.getLast? = some '?')
    (hline : behind.head?.any inLine = true) (hescape : behind.head? ≠ some '\\') :
    blankNonCode 0 (kept ++ behind) = kept.dropLast ++ blankNonCode 1 behind := by
  obtain ⟨base, rfl⟩ := List.getLast?_eq_some_iff.mp hlast
  cases behind with
  | nil => cases hline
  | cons d behind =>
    rw [List.dropLast_concat] at hinner
    have hd : d ≠ '\\' := fun he => hescape (by rw [he]; rfl)
    rw [List.dropLast_concat, List.append_assoc, List.singleton_append,
      blankNonCode_append _ _ hinner, blankNonCode_question d behind hline hd]

/-- Code without its first character, if the scan has taken that already: the scan goes on with it,
and it ends as the code does. -/
theorem blankNonCode_front (eaten : Bool) (text behind : List Char) (hfit : CodeText text behind)
    (hline : eaten = true → text.head?.any inLine = true) :
    ∃ kept, kept = (if eaten then text.tail else text) ∧
      blankNonCode eaten.toNat (text ++ behind) = blankNonCode 0 (kept ++ behind) ∧
      (∀ d ∈ kept.dropLast, startsNonCode d = false) ∧
      (∀ d, kept.getLast? = some d → text.getLast? = some d) ∧
      (text.getLast? = some '?' → kept.getLast? = some '?') := by
  cases eaten with
  | false => exact ⟨_, rfl, rfl, hfit.inner, fun d hd => hd, fun hd => hd⟩
  | true =>
    obtain ⟨c, cs, rfl⟩ := List.exists_cons_of_ne_nil hfit.ne_nil
    have hc : c ≠ '\n' := by
      have hin : inLine c = true := hline rfl
      simpa [inLine] using hin
    refine ⟨cs, rfl, ?_, fun d hd => ?_, fun d hd => ?_, fun hd => ?_⟩
    · rw [List.cons_append]
      show blankNonCode 1 (c :: (cs ++ behind)) = _
      rw [blankNonCode, if_neg hc]
    · cases cs with
      | nil => cases hd
      | cons e cs =>
        refine hfit.inner d ?_
        rw [List.dropLast_cons_cons]
        exact List.mem_cons_of_mem _ hd
    · rw [List.getLast?_cons, hd]
      rfl
    · cases cs with
      | nil =>
        -- the code would be a question mark alone, which no code starts with
        cases hd
        exact absurd hfit.head (by decide)
      | cons e cs => rwa [List.getLast?_cons_cons] at hd

theorem blankNonCode_code (eaten : Bool) (last : Option Char) (text : List Char)
    (pieces : List Piece) (hfit : CodeText text (textOf pieces))
    (hplain : (Piece.code text).Plain eaten last pieces)
    (hline : eaten = true → text.head?.any inLine = true) :
    blankNonCode eaten.toNat (text ++ textOf pieces) =
      (Piece.code text).shown eaten (textOf pieces) ++
        blankNonCode ((Piece.code text).eats (textOf pieces)).toNat (textOf pieces) := by
  obtain ⟨-, hsigil, heats⟩ := hplain
  obtain ⟨kept, hkept, hfront, hinner, hlast, hmark⟩ :=
    blankNonCode_front eaten text (textOf pieces) hfit hline
  rw [hfront, Piece.shown_code, ← hkept]
  by_cases he : (Piece.code text).eats (textOf pieces) = true
  · have hparts := Bool.and_eq_true_iff.mp he
    rw [if_pos he, he]
    exact blankNonCode_kept_eats kept _ hinner (hmark (by simpa using hparts.1)) hparts.2
      (heats he).1
  · rw [if_neg he, Bool.eq_false_iff.mpr he]
    refine blankNonCode_kept kept _ hinner fun d hd hstart => ?_
    have htext := hlast d hd
    rcases hfit.last (by rw [htext]; exact hstart) with htilde | ⟨hquestion, -⟩
    · obtain rfl : d = '~' := Option.some.inj (htext.symm.trans htilde)
      have hwidth : nonCodeWidth ('~' :: textOf pieces) =
          (sigilWidth ('~' :: textOf pieces)).or none := rfl
      rw [hwidth, hsigil htilde]
      rfl
    · obtain rfl : d = '?' := Option.some.inj (htext.symm.trans hquestion)
      refine nonCodeWidth_question _ (Bool.eq_false_iff.mpr fun hline => he ?_)
      rw [Piece.eats, hquestion, hline]
      rfl

/-! ### Words that open no block -/

theorem not_opens_of_hides (before : Option Char) (cs : List Char)
    (h : before.any hidesBlockWord = true) : ¬ Opens before cs := by
  rw [Opens, blockWordAt?, if_pos h]
  simp

theorem not_opens_of_none (before : Option Char) (cs : List Char)
    (hdo : keywordWidth "do" cs = none) (hfn : keywordWidth "fn" cs = none) :
    ¬ Opens before cs := by
  have hfound : ∀ word, blockWordAt? before cs = some word → (keywordWidth word cs).isSome = true := by
    intro word hword
    unfold blockWordAt? at hword
    split at hword
    · cases hword
    · exact List.find?_some (p := fun word => (keywordWidth word cs).isSome) hword
  rintro (h | h)
  · have hsome := hfound "do" h
    rw [hdo] at hsome
    cases hsome
  · have hsome := hfound "fn" h
    rw [hfn] at hsome
    cases hsome

/-- A word of two letters at the front of a text. -/
theorem keywordWidth_pair (word : String) (p q : Char) (hword : word.toList = [p, q])
    (cs : List Char) (h : keywordWidth word cs ≠ none) :
    ∃ behind, cs = p :: q :: behind ∧ behind.head?.any continuesWord = false := by
  obtain ⟨w, hw⟩ := Option.ne_none_iff_exists'.mp h
  have htake := take_keywordWidth word cs w hw
  refine ⟨cs.drop w, ?_, head_of_keywordWidth word cs w hw⟩
  have hcs := List.take_append_drop w cs
  rw [htake, hword] at hcs
  exact hcs.symm

theorem keywordWidth_append (word : String) (behind : List Char) :
    keywordWidth word (word.toList ++ behind) =
      if behind.head?.any continuesWord then none else some word.length := by
  have hwidth : textWidth word (word.toList ++ behind) = some word.length := by
    rw [textWidth, if_pos]
    exact List.isPrefixOf_iff_prefix.mpr (List.prefix_append _ _)
  rw [keywordWidth, hwidth]
  dsimp only
  rw [← String.length_toList, List.drop_left]

theorem opener_cases (c : Char) (cs : List Char) (word : String)
    (hword : word = "do" ∨ word = "fn") (h : keywordWidth word (c :: cs) ≠ none) :
    startsOpener c = true := by
  rcases hword with rfl | rfl
  · obtain ⟨behind, hcs, -⟩ := keywordWidth_pair "do" 'd' 'o' rfl _ h
    cases hcs
    rfl
  · obtain ⟨behind, hcs, -⟩ := keywordWidth_pair "fn" 'f' 'n' rfl _ h
    cases hcs
    rfl

theorem not_opens_of_letter (before : Option Char) (c : Char) (cs : List Char)
    (h : startsOpener c = false) : ¬ Opens before (c :: cs) := by
  refine not_opens_of_none before _ ?_ ?_ <;> by_contra hne
  · rw [opener_cases c cs "do" (.inl rfl) hne] at h
    cases h
  · rw [opener_cases c cs "fn" (.inr rfl) hne] at h
    cases h

theorem quiet_of_covered (before : Option Char) (out behind : List Char)
    (h : covered before out = true) : Quiet before out behind := by
  induction out generalizing before with
  | nil => trivial
  | cons c out ih =>
    rw [covered, Bool.and_eq_true, Bool.or_eq_true, Bool.not_eq_true'] at h
    refine ⟨?_, ih (some c) h.2⟩
    rcases h.1 with hletter | hbefore
    · exact not_opens_of_letter before c _ hletter
    · exact not_opens_of_hides before _ hbefore

theorem covered_dropLast (before : Option Char) (out : List Char)
    (h : covered before out = true) : covered before out.dropLast = true := by
  induction out generalizing before with
  | nil => rfl
  | cons c out ih =>
    rw [covered, Bool.and_eq_true] at h
    cases out with
    | nil => rfl
    | cons d out =>
      rw [List.dropLast_cons_cons, covered, Bool.and_eq_true]
      exact ⟨h.1, ih (some c) h.2⟩

theorem covered_of_before (before last : Option Char) (out : List Char)
    (hlast : last.any hidesBlockWord = true) (h : covered before out = true) :
    covered last out = true := by
  cases out with
  | nil => rfl
  | cons c out =>
    rw [covered, Bool.and_eq_true] at h
    rw [covered, hlast, Bool.or_true, Bool.true_and]
    exact h.2

/-- What the scan leaves behind a piece starts as the text behind it does, or where a comment has
been. -/
def Follows (shown behind : List Char) : Prop :=
  (behind.head?.any startsNonCode = false ∧ shown.head? = behind.head?) ∨
    (behind.head? = some '#' ∧ shown.head?.all (· == '\n') = true)

theorem Follows.not_any {shown behind : List Char} (h : Follows shown behind) (p : Char → Bool)
    (hfeed : p '\n' = false) (hbehind : behind.head?.any p = false) : shown.head?.any p = false := by
  rcases h with ⟨-, hsame⟩ | ⟨-, hshown⟩
  · rw [hsame]
    exact hbehind
  · cases hhead : shown.head? with
    | none => rfl
    | some c =>
      rw [hhead, Option.all_some, beq_iff_eq] at hshown
      rw [Option.any_some, hshown]
      exact hfeed

theorem follows_of_pieces (pieces : List Piece) (hfit : AllFit [] pieces)
    (hnext : pieces.head?.any isText = false) :
    Follows (blankNonCode 0 (textOf pieces)) (textOf pieces) := by
  have hcode : (textOf pieces).head?.any startsNonCode = false →
      Follows (blankNonCode 0 (textOf pieces)) (textOf pieces) :=
    fun h => .inl ⟨h, head_blankNonCode _ h⟩
  cases pieces with
  | nil => exact hcode rfl
  | cons piece pieces =>
    have hpiece := hfit.1
    have hhead : textOf (piece :: pieces) = piece.text ++ textOf pieces := rfl
    cases piece with
    | opener word =>
      refine hcode ?_
      rcases hpiece.1 with rfl | rfl <;> rfl
    | closer => exact hcode rfl
    | code text =>
      obtain ⟨c, cs, rfl⟩ := List.exists_cons_of_ne_nil hpiece.ne_nil
      exact hcode hpiece.head
    | comment text =>
      obtain ⟨hhash, hbody, hend⟩ := hpiece
      cases text with
      | nil => cases hhash
      | cons c body =>
        cases hhash
        rw [List.append_nil] at hend
        refine .inr ⟨rfl, ?_⟩
        rw [hhead]
        show (blankNonCode 0 ('#' :: body ++ textOf pieces)).head?.all _ = true
        rw [blankNonCode_comment body _ (fun hm => hbody (List.mem_cons_of_mem _ hm)) hend]
        rcases hend with hnil | hfeed
        · rw [hnil]
          rfl
        · rw [head_blankNonCode _ (by rw [hfeed]; rfl), hfeed]
          rfl
    | literal text => cases hnext
    | quoted text => cases hnext

theorem continuesWord_of_inName (c : Char) (h : inName c = true) : continuesWord c = true := by
  rw [inName, Bool.or_assoc, Bool.or_eq_true] at h
  rw [continuesWord, Bool.or_assoc, Bool.or_assoc, ← Bool.or_assoc (c == '?'), Bool.or_eq_true,
    Bool.or_eq_true]
  rcases h with h | h
  · exact .inl (isWord_of_isNameChar c h)
  · exact .inr (.inl h)

/-- A name that is longer than a word of two letters, or goes on where the word would end, is not the
word. -/
theorem keywordWidth_name (word : String) (p q : Char) (hword : word.toList = [p, q])
    (name shown : List Char) (hne : name ≠ []) (hchars : ∀ c ∈ name, inName c = true)
    (hone : name = [p] → shown.head? ≠ some q)
    (htwo : name = [p, q] → shown.head?.any continuesWord = true) :
    keywordWidth word (name ++ shown) = none := by
  by_contra hsome
  obtain ⟨rest, hcs, hrest⟩ := keywordWidth_pair word p q hword _ hsome
  match name, hcs with
  | [], _ => exact hne rfl
  | [a], hcs =>
    simp only [List.singleton_append, List.cons.injEq] at hcs
    obtain ⟨rfl, rfl⟩ := hcs
    exact hone rfl rfl
  | [a, b], hcs =>
    simp only [List.cons_append, List.nil_append, List.cons.injEq] at hcs
    obtain ⟨rfl, rfl, rfl⟩ := hcs
    rw [htwo rfl] at hrest
    cases hrest
  | a :: b :: e :: more, hcs =>
    simp only [List.cons_append, List.cons.injEq] at hcs
    have hin := hchars e (List.mem_cons_of_mem _ (List.mem_cons_of_mem _ List.mem_cons_self))
    rw [← hcs.2.2, List.head?_cons, Option.any_some, continuesWord_of_inName e hin] at hrest
    cases hrest

/-- A name that the scan leaves as it is. -/
theorem keywordWidth_shown (word : String) (p q : Char) (hword : word.toList = [p, q])
    (hp : isNameChar p = true) (hq : isNameChar q = true) (text behind shown : List Char)
    (hne : text ≠ []) (hfree : FreeWord text behind)
    (hnone : keywordWidth word (text ++ behind) = none)
    (hfollows : text.getLast?.any isNameChar = true → Follows shown behind) :
    keywordWidth word (text ++ shown) = none := by
  refine keywordWidth_name word p q hword text shown hne hfree.chars ?_ ?_
  · rintro rfl hhead
    have hnot := (hfollows hp).not_any inName (by decide) (hfree.ends hp)
    rw [hhead, Option.any_some, inName, hq] at hnot
    cases hnot
  · rintro rfl
    have hcontinues : behind.head?.any continuesWord = true := by
      rw [← hword, keywordWidth_append] at hnone
      by_contra hstop
      rw [if_neg hstop] at hnone
      cases hnone
    rcases hfollows hq with ⟨-, hsame⟩ | ⟨hhash, -⟩
    · rw [hsame]
      exact hcontinues
    · rw [hhash] at hcontinues
      cases hcontinues

/-- A name whose question mark is gone. -/
theorem keywordWidth_dropLast (word : String) (p q : Char) (hword : word.toList = [p, q])
    (base shown : List Char) (hne : base ≠ []) (hchars : ∀ c ∈ base, inName c = true)
    (hone : base ≠ [p]) (htwo : base ≠ [p, q]) : keywordWidth word (base ++ shown) = none :=
  keywordWidth_name word p q hword base shown hne hchars (fun h => absurd h hone)
    fun h => absurd h htwo

theorem quiet_code (last : Option Char) (text : List Char) (pieces : List Piece)
    (hfit : CodeText text (textOf pieces)) (hplain : (Piece.code text).Plain false last pieces)
    (hpieces : AllFit [] pieces) :
    Quiet last ((Piece.code text).shown false (textOf pieces))
      (blankNonCode ((Piece.code text).eats (textOf pieces)).toNat (textOf pieces)) := by
  obtain ⟨hnext, -, heats⟩ := hplain
  by_cases he : (Piece.code text).eats (textOf pieces) = true
  · have hshown : (Piece.code text).shown false (textOf pieces) = text.dropLast := by
      rw [Piece.shown_code, he]
      rfl
    have hquestion : text.getLast? = some '?' := by simpa using (Bool.and_eq_true_iff.mp he).1
    obtain ⟨base, rfl⟩ := List.getLast?_eq_some_iff.mp hquestion
    rw [hshown, List.dropLast_concat]
    cases base with
    | nil => exact absurd hfit.head (by decide)
    | cons c cs =>
      have hcovered : covered (some c) (cs ++ ['?']) = true := hfit.covered
      have hrest := covered_dropLast _ _ hcovered
      rw [List.dropLast_concat] at hrest
      refine ⟨?_, quiet_of_covered _ _ _ hrest⟩
      by_cases hletter : startsOpener c = true
      · have hfree := hfit.word hletter
        have hchars : ∀ d ∈ c :: cs, inName d = true :=
          fun d hd => hfree.chars d (List.mem_append_left _ hd)
        have hnames := (heats he).2 rfl
        refine not_opens_of_none last _ ?_ ?_
        · refine keywordWidth_dropLast "do" 'd' 'o' rfl (c :: cs) _ (List.cons_ne_nil _ _) hchars ?_ ?_
          · exact fun h => hnames (by rw [h]; decide)
          · exact fun h => hnames (by rw [h]; decide)
        · refine keywordWidth_dropLast "fn" 'f' 'n' rfl (c :: cs) _ (List.cons_ne_nil _ _) hchars ?_ ?_
          · exact fun h => hnames (by rw [h]; decide)
          · exact fun h => hnames (by rw [h]; decide)
      · exact not_opens_of_letter last c _ (Bool.eq_false_iff.mpr hletter)
  · have hshown : (Piece.code text).shown false (textOf pieces) = text := by
      rw [Piece.shown_code, Bool.eq_false_iff.mpr he]
      rfl
    rw [hshown, Bool.eq_false_iff.mpr he]
    obtain ⟨c, cs, rfl⟩ := List.exists_cons_of_ne_nil hfit.ne_nil
    refine ⟨?_, quiet_of_covered _ _ _ hfit.covered⟩
    by_cases hletter : startsOpener c = true
    · have hfree := hfit.word hletter
      have hfollows : (c :: cs).getLast?.any isNameChar = true →
          Follows (blankNonCode 0 (textOf pieces)) (textOf pieces) := by
        intro hlast
        refine follows_of_pieces pieces hpieces (Bool.eq_false_iff.mpr fun htext => ?_)
        have hword := hnext htext
        rw [List.getLast?_cons, Option.any_some] at hlast hword
        rw [isWord_of_isNameChar _ hlast] at hword
        cases hword
      exact not_opens_of_none last _
        (keywordWidth_shown "do" 'd' 'o' rfl (by decide) (by decide) _ _ _ (List.cons_ne_nil _ _)
          hfree hfree.notDo hfollows)
        (keywordWidth_shown "fn" 'f' 'n' rfl (by decide) (by decide) _ _ _ (List.cons_ne_nil _ _)
          hfree hfree.notFn hfollows)
    · exact not_opens_of_letter last c _ (Bool.eq_false_iff.mpr hletter)

/-- Behind a character that hides words, nothing that is left of a piece opens a block. -/
theorem quiet_eaten (last : Option Char) (text behind shown : List Char)
    (hcovered : covered text.head? text.tail = true) (hlast : last.any hidesBlockWord = true)
    (piece : Piece) (hpiece : piece = .code text ∨ ∃ word, piece = .opener word ∧ word.toList = text) :
    Quiet last (piece.shown true behind) shown := by
  have htail := covered_of_before text.head? last text.tail hlast hcovered
  have hshown : piece.shown true behind = text.tail ∨ piece.shown true behind = text.tail.dropLast := by
    rcases hpiece with rfl | ⟨word, rfl, rfl⟩
    · rw [Piece.shown_code]
      split
      · exact .inr rfl
      · exact .inl rfl
    · exact .inl rfl
  rcases hshown with h | h
  · rw [h]
    exact quiet_of_covered _ _ _ htail
  · rw [h]
    exact quiet_of_covered _ _ _ (covered_dropLast _ _ htail)

/-! ### The blocks that the scan finds -/

/-- The open blocks behind one more word. -/
def pushWord (stack : List (String × Nat)) : BlockWord → List (String × Nat)
  | .open_ word line => (word, line) :: stack
  | .close => stack.drop 1

theorem openBlocks_eq (words : List BlockWord) : openBlocks words = words.foldl pushWord [] := by
  rw [openBlocks]
  congr 1

/-- The open blocks behind a text, from the blocks that are open in front of it. -/
def blocksBehind (stack : List (String × Nat)) (before : Option Char) (line : Nat)
    (cs : List Char) : List (String × Nat) :=
  (blockWords before line cs).foldl pushWord stack

/-- At any character at most one block more is open; where no block is opened, no more than before. -/
theorem blocksBehind_cons (stack : List (String × Nat)) (before : Option Char) (line : Nat) (c : Char)
    (cs : List Char) :
    ∃ stack' line', blocksBehind stack before line (c :: cs) =
        blocksBehind stack' (some c) line' cs ∧ stack'.length ≤ stack.length + 1 ∧
      (¬ Opens before (c :: cs) → stack'.length ≤ stack.length) := by
  cases hword : blockWordAt? before (c :: cs) with
  | none =>
    refine ⟨stack, if c = '\n' then line + 1 else line, ?_, by omega, fun _ => Nat.le_refl _⟩
    rw [blocksBehind, blockWords, hword]
    rfl
  | some word =>
    by_cases hend : word = "end"
    · refine ⟨stack.drop 1, if c = '\n' then line + 1 else line, ?_, by simp; omega, fun _ => by simp⟩
      rw [blocksBehind, blockWords, hword]
      dsimp only
      rw [if_pos hend]
      rfl
    · refine ⟨(word, line) :: stack, if c = '\n' then line + 1 else line, ?_, by simp,
        fun hquiet => absurd ?_ hquiet⟩
      · rw [blocksBehind, blockWords, hword]
        dsimp only
        rw [if_neg hend]
        rfl
      · rcases blockWordAt?_cases before _ word hword with rfl | rfl | rfl
        · exact .inl hword
        · exact .inr hword
        · exact absurd rfl hend

theorem blocksBehind_quiet (stack : List (String × Nat)) (before : Option Char) (line : Nat)
    (out behind : List Char) (h : Quiet before out behind) :
    ∃ stack' line', blocksBehind stack before line (out ++ behind) =
      blocksBehind stack' (out.getLast?.or before) line' behind ∧ stack'.length ≤ stack.length := by
  induction out generalizing stack before line with
  | nil => exact ⟨stack, line, rfl, Nat.le_refl _⟩
  | cons c out ih =>
    obtain ⟨middle, line', hcons, -, hlength⟩ :=
      blocksBehind_cons stack before line c (out ++ behind)
    obtain ⟨stack', line'', hout, hlength'⟩ := ih middle (some c) line' h.2
    refine ⟨stack', line'', ?_, Nat.le_trans hlength' (hlength h.1)⟩
    rw [List.cons_append, hcons, hout, List.getLast?_cons]
    cases out.getLast? <;> rfl

/-! ### Scans of plain readings -/

/-- The scan stands in step in front of pieces: if it has taken the first character already, that is
no line feed, and the last character that is left hides words. -/
structure InStep (eaten : Bool) (last : Option Char) (pieces : List Piece) : Prop where
  line : eaten = true → (textOf pieces).head?.any inLine = true
  last : eaten = true → last.any hidesBlockWord = true

theorem InStep.start (pieces : List Piece) (last : Option Char) : InStep false last pieces :=
  ⟨nofun, nofun⟩

/-- The character in front of a question mark hides words. -/
theorem InStep.code {eaten : Bool} {last : Option Char} {text : List Char} {pieces : List Piece}
    (h : InStep eaten last (.code text :: pieces)) (hfit : CodeText text (textOf pieces)) :
    InStep ((Piece.code text).eats (textOf pieces))
      (((Piece.code text).shown eaten (textOf pieces)).getLast?.or last) pieces := by
  refine ⟨fun he => (Bool.and_eq_true_iff.mp he).2, fun he => ?_⟩
  have hquestion : text.getLast? = some '?' := by simpa using (Bool.and_eq_true_iff.mp he).1
  have hhides : text.dropLast.getLast?.any hidesBlockWord = true := by
    rcases hfit.last (by rw [hquestion]; rfl) with htilde | hmark
    · rw [htilde] at hquestion
      cases hquestion
    · exact hmark.2
  rw [Piece.shown_code, if_pos he]
  cases eaten with
  | false =>
    cases hlast : text.dropLast.getLast? with
    | none =>
      rw [hlast] at hhides
      cases hhides
    | some c =>
      rw [hlast] at hhides
      simpa [hlast] using hhides
  | true =>
    have hbefore := h.last rfl
    obtain ⟨c, cs, rfl⟩ := List.exists_cons_of_ne_nil hfit.ne_nil
    show (cs.dropLast.getLast?.or last).any hidesBlockWord = true
    cases hlast : cs.dropLast.getLast? with
    | none => exact hbefore
    | some d =>
      cases cs with
      | nil => cases hlast
      | cons e cs =>
        rw [List.dropLast_cons_cons, List.getLast?_cons, hlast] at hhides
        exact hhides

theorem blocksBehind_closer (stack : List (String × Nat)) (last : Option Char) (line : Nat)
    (pieces : List Piece) (hlast : last.any hidesBlockWord = false)
    (hfit : Piece.closer.Fits (textOf pieces)) (hpieces : AllFit [] pieces)
    (hnext : pieces.head?.any isText = false) :
    ∃ stack' line', blocksBehind stack last line
        ("end".toList ++ blankNonCode 0 (textOf pieces)) =
      blocksBehind stack' ("end".toList.getLast?.or last) line' (blankNonCode 0 (textOf pieces)) ∧
      stack'.length ≤ stack.length - 1 := by
  have hstop : (textOf pieces).head?.any continuesWord = false := by
    by_contra hcontinues
    have hsome : (keywordWidth "end" ("end".toList ++ textOf pieces)).isSome = true := hfit
    rw [keywordWidth_append, if_pos (Bool.not_eq_false _ ▸ hcontinues)] at hsome
    cases hsome
  generalize hrest : blankNonCode 0 (textOf pieces) = rest
  have hshown : rest.head?.any continuesWord = false := by
    rw [← hrest]
    exact (follows_of_pieces pieces hpieces hnext).not_any continuesWord (by decide) hstop
  have hword : blockWordAt? last ("end".toList ++ rest) = some "end" := by
    have hend := keywordWidth_append "end" rest
    have hdo : keywordWidth "do" ("end".toList ++ rest) = none := rfl
    have hfn : keywordWidth "fn" ("end".toList ++ rest) = none := rfl
    rw [hshown] at hend
    rw [blockWordAt?, hlast, if_neg (by decide), List.find?_cons_of_neg (by rw [hdo]; decide),
      List.find?_cons_of_neg (by rw [hfn]; decide), List.find?_cons_of_pos (by rw [hend]; rfl)]
  have hquiet : Quiet (some 'e') ['n', 'd'] rest := quiet_of_covered _ _ _ (by decide)
  obtain ⟨stack', line', hbehind, hlength⟩ :=
    blocksBehind_quiet (stack.drop 1) (some 'e') line ['n', 'd'] rest hquiet
  refine ⟨stack', line', ?_, ?_⟩
  · refine Eq.trans ?_ hbehind
    show blocksBehind stack last line ('e' :: ('n' :: 'd' :: rest)) = _
    have hword' : blockWordAt? last ('e' :: ('n' :: 'd' :: rest)) = some "end" := hword
    rw [blocksBehind, blockWords, hword']
    rfl
  · rwa [List.length_drop] at hlength

theorem blocksBehind_opener (stack : List (String × Nat)) (last : Option Char) (line : Nat)
    (word : String) (hword : word = "do" ∨ word = "fn") (behind : List Char) :
    ∃ stack' line', blocksBehind stack last line (word.toList ++ behind) =
      blocksBehind stack' (word.toList.getLast?.or last) line' behind ∧
      stack'.length ≤ stack.length + 1 := by
  obtain ⟨p, q, hpair, hq⟩ : ∃ p q, word.toList = [p, q] ∧ startsOpener q = false := by
    rcases hword with rfl | rfl
    · exact ⟨'d', 'o', rfl, rfl⟩
    · exact ⟨'f', 'n', rfl, rfl⟩
  obtain ⟨middle, line', hcons, hlength, -⟩ := blocksBehind_cons stack last line p (q :: behind)
  have hquiet : Quiet (some p) [q] behind := ⟨not_opens_of_letter _ q _ hq, trivial⟩
  obtain ⟨stack', line'', hbehind, hlength'⟩ :=
    blocksBehind_quiet middle (some p) line' [q] behind hquiet
  refine ⟨stack', line'', ?_, Nat.le_trans hlength' hlength⟩
  rw [hpair]
  exact hcons.trans hbehind

theorem blankNonCode_opener (eaten : Bool) (word : String) (hword : word = "do" ∨ word = "fn")
    (behind : List Char) :
    blankNonCode eaten.toNat (word.toList ++ behind) =
      (Piece.opener word).shown eaten behind ++ blankNonCode 0 behind := by
  rcases hword with rfl | rfl
  · cases eaten with
    | false => exact blankNonCode_append "do".toList behind ((any_eq_false_iff _ _).mp rfl)
    | true => exact blankNonCode_append ['o'] behind ((any_eq_false_iff _ _).mp rfl)
  · cases eaten with
    | false => exact blankNonCode_append "fn".toList behind ((any_eq_false_iff _ _).mp rfl)
    | true => exact blankNonCode_append ['n'] behind ((any_eq_false_iff _ _).mp rfl)

/-- One step of the scan: over a piece it leaves what is shown of the piece, has no more blocks open
than the pieces have, and stands in step in front of the next one. -/
def StepsOver (eaten : Bool) (last : Option Char) (line n : Nat) (stack : List (String × Nat))
    (piece : Piece) (pieces : List Piece) : Prop :=
  ∃ stack' line' m, Piece.blocks n piece = some m ∧ stack'.length ≤ m ∧
    blocksBehind stack last line (blankNonCode eaten.toNat (piece.text ++ textOf pieces)) =
      blocksBehind stack' ((piece.shown eaten (textOf pieces)).getLast?.or last) line'
        (blankNonCode (piece.eats (textOf pieces)).toNat (textOf pieces)) ∧
    InStep (piece.eats (textOf pieces)) ((piece.shown eaten (textOf pieces)).getLast?.or last) pieces

section

variable {eaten : Bool} {last : Option Char} {line n : Nat} {stack : List (String × Nat)}
  {pieces : List Piece} (hstack : stack.length ≤ n)

include hstack

-- where the scan leaves quiet text, no block is opened; it may even take a word there for an end
theorem stepsOver_of_quiet {piece : Piece} (hword : Piece.blocks n piece = some n)
    (hscan : blankNonCode eaten.toNat (piece.text ++ textOf pieces) =
      piece.shown eaten (textOf pieces) ++
        blankNonCode (piece.eats (textOf pieces)).toNat (textOf pieces))
    (hquiet : Quiet last (piece.shown eaten (textOf pieces))
      (blankNonCode (piece.eats (textOf pieces)).toNat (textOf pieces)))
    (hnext : InStep (piece.eats (textOf pieces))
      ((piece.shown eaten (textOf pieces)).getLast?.or last) pieces) :
    StepsOver eaten last line n stack piece pieces := by
  obtain ⟨stack', line', hbehind, hlength⟩ := blocksBehind_quiet stack last line _ _ hquiet
  refine ⟨stack', line', n, hword, by omega, ?_, hnext⟩
  rw [hscan]
  exact hbehind

theorem stepsOver_opener {word : String} (hpiece : (Piece.opener word).Fits (textOf pieces))
    (hstep : InStep eaten last (.opener word :: pieces)) :
    StepsOver eaten last line n stack (.opener word) pieces := by
  have hscan := blankNonCode_opener eaten word hpiece.1 (textOf pieces)
  suffices ∃ stack' line', blocksBehind stack last line
        ((Piece.opener word).shown eaten (textOf pieces) ++ blankNonCode 0 (textOf pieces)) =
      blocksBehind stack' (((Piece.opener word).shown eaten (textOf pieces)).getLast?.or last)
        line' (blankNonCode 0 (textOf pieces)) ∧ stack'.length ≤ stack.length + 1 by
    obtain ⟨stack', line', hbehind, hlength⟩ := this
    refine ⟨stack', line', n + 1, rfl, by omega, ?_, InStep.start pieces _⟩
    exact (congrArg (blocksBehind stack last line) hscan).trans hbehind
  cases eaten with
  | false => exact blocksBehind_opener stack last line word hpiece.1 _
  | true =>
    -- without its first letter the word opens nothing, and the pieces have a block more
    have hcovered : covered word.toList.head? word.toList.tail = true := by
      rcases hpiece.1 with rfl | rfl <;> decide
    obtain ⟨stack', line', hbehind, hlength⟩ := blocksBehind_quiet stack last line _ _
      (quiet_eaten last word.toList (textOf pieces) (blankNonCode 0 (textOf pieces)) hcovered
        (hstep.last rfl) (.opener word) (.inr ⟨word, rfl, rfl⟩))
    exact ⟨stack', line', hbehind, by omega⟩

theorem stepsOver_closer (hpiece : Piece.closer.Fits (textOf pieces)) (hfit : AllFit [] pieces)
    (hown : Piece.closer.Plain eaten last pieces) (hopen : n ≠ 0) :
    StepsOver eaten last line n stack .closer pieces := by
  obtain ⟨rfl, hlast, hnext⟩ := hown
  obtain ⟨stack', line', hbehind, hlength⟩ :=
    blocksBehind_closer stack last line pieces hlast hpiece hfit hnext
  obtain ⟨m, rfl⟩ := Nat.exists_eq_succ_of_ne_zero hopen
  refine ⟨stack', line', m, rfl, by omega, ?_, InStep.start pieces _⟩
  have hscan := blankNonCode_append "end".toList (textOf pieces) ((any_eq_false_iff _ _).mp rfl)
  exact (congrArg (blocksBehind stack last line) hscan).trans hbehind

theorem stepsOver_code {text : List Char} (hpiece : CodeText text (textOf pieces))
    (hfit : AllFit [] pieces) (hown : (Piece.code text).Plain eaten last pieces)
    (hstep : InStep eaten last (.code text :: pieces)) :
    StepsOver eaten last line n stack (.code text) pieces := by
  have hline : eaten = true → text.head?.any inLine = true := by
    intro he
    have hline := hstep.line he
    obtain ⟨c, cs, rfl⟩ := List.exists_cons_of_ne_nil hpiece.ne_nil
    exact hline
  refine stepsOver_of_quiet hstack rfl
    (blankNonCode_code eaten last text pieces hpiece hown hline) ?_ (hstep.code hpiece)
  cases eaten with
  | false => exact quiet_code last text pieces hpiece hown hfit
  | true => exact quiet_eaten last text _ _ hpiece.covered (hstep.last rfl) _ (.inl rfl)

theorem stepsOver_comment {text : List Char} (hpiece : (Piece.comment text).Fits (textOf pieces))
    (hown : (Piece.comment text).Plain eaten last pieces) :
    StepsOver eaten last line n stack (.comment text) pieces := by
  obtain rfl : eaten = false := hown
  obtain ⟨hhash, hbody, hend⟩ := hpiece
  refine stepsOver_of_quiet hstack rfl ?_ trivial (InStep.start pieces _)
  cases text with
  | nil => cases hhash
  | cons c body =>
    cases hhash
    exact blankNonCode_comment body (textOf pieces)
      (fun hm => hbody (List.mem_cons_of_mem _ hm)) hend

theorem stepsOver_literal {text : List Char} (hpiece : (Piece.literal text).Fits (textOf pieces))
    (hown : (Piece.literal text).Plain eaten last pieces) :
    StepsOver eaten last line n stack (.literal text) pieces := by
  obtain rfl : eaten = false := hown
  refine stepsOver_of_quiet hstack rfl
    (blankNonCode_literal text (textOf pieces) hpiece.1 hpiece.2) ?_ (InStep.start pieces _)
  refine quiet_of_covered _ _ _ (covered_of_free _ _ fun c hc => ?_)
  rw [beq_iff_eq.mp (List.mem_filter.mp hc).2]
  rfl

theorem stepsOver_quoted {text : List Char} (hown : (Piece.quoted text).Plain eaten last pieces) :
    StepsOver eaten last line n stack (.quoted text) pieces := by
  obtain ⟨rfl, hscan, hquiet⟩ := hown
  exact stepsOver_of_quiet hstack rfl hscan hquiet (InStep.start pieces _)

end

theorem stepsOver_plain (piece : Piece) (pieces : List Piece) (eaten : Bool) (last : Option Char)
    (line n : Nat) (stack : List (String × Nat)) (hpiece : piece.Fits (textOf pieces))
    (hfit : AllFit [] pieces) (hown : piece.Plain eaten last pieces)
    (hstep : InStep eaten last (piece :: pieces)) (hstack : stack.length ≤ n)
    (hblocks : Piece.blocks n piece ≠ none) : StepsOver eaten last line n stack piece pieces := by
  cases piece with
  | opener word => exact stepsOver_opener hstack hpiece hstep
  | closer =>
    refine stepsOver_closer hstack hpiece hfit hown fun hzero => hblocks ?_
    rw [hzero]
    rfl
  | code text => exact stepsOver_code hstack hpiece hfit hown hstep
  | comment text => exact stepsOver_comment hstack hpiece hown
  | literal text => exact stepsOver_literal hstack hpiece hown
  | quoted text => exact stepsOver_quoted hstack hown

/-- On plain pieces the scan has never more blocks open than the pieces have, so none at the end. -/
theorem blocksBehind_plain (pieces : List Piece) (eaten : Bool) (last : Option Char) (line n : Nat)
    (stack : List (String × Nat)) (hfit : AllFit [] pieces) (hplain : PlainFrom eaten last pieces)
    (hstep : InStep eaten last pieces) (hstack : stack.length ≤ n)
    (hblocks : pieces.foldlM Piece.blocks n = some 0) :
    blocksBehind stack last line (blankNonCode eaten.toNat (textOf pieces)) = [] := by
  induction pieces generalizing eaten last line n stack with
  | nil =>
    have hzero : n = 0 := Option.some.inj hblocks
    have hnil : stack = [] := List.eq_nil_of_length_eq_zero (by omega)
    rw [hnil]
    cases eaten <;> rfl
  | cons piece pieces ih =>
    obtain ⟨hpiece, hpieces⟩ := hfit
    obtain ⟨hown, hothers⟩ := hplain
    rw [List.append_nil] at hpiece
    have hdefined : Piece.blocks n piece ≠ none := by
      intro hnone
      rw [List.foldlM_cons, hnone] at hblocks
      cases hblocks
    obtain ⟨stack', line', m, hm, hlength, hscan, hnext⟩ :=
      stepsOver_plain piece pieces eaten last line n stack hpiece hpieces hown hstep hstack hdefined
    rw [List.foldlM_cons, hm] at hblocks
    have htext : textOf (piece :: pieces) = piece.text ++ textOf pieces := rfl
    rw [htext, hscan]
    exact ih _ _ line' m stack' hpieces hothers hnext hlength hblocks

theorem unclosedOpener_of_plain (source : List Char) (pieces : List Piece)
    (hreading : Reading source pieces) (hplain : PlainFrom false none pieces) :
    unclosedOpener source = none := by
  have hempty := blocksBehind_plain pieces false none 1 0 [] hreading.allFit hplain
    (InStep.start pieces none) (Nat.le_refl _) hreading.nested
  have hblocks : openBlocks (blockWords none 1 (blankNonCode 0 source)) = [] := by
    rw [openBlocks_eq, ← hreading.text_eq]
    exact hempty
  rw [unclosedOpener, hblocks]
  rfl

/-- An accepted source has a reading, and a reading closes every block that it opens.  On a source
with a plain reading the scan finds no unclosed block. -/
theorem parse_unclosedOpener (source file : String) (tree : Node)
    (h : (parse source file).value = .ok tree) :
    (∃ pieces, Reading source.toList pieces) ∧
      ∀ pieces, Reading source.toList pieces → PlainFrom false none pieces →
        unclosedOpener source.toList = none :=
  ⟨exists_reading_of_parse source file tree h, unclosedOpener_of_plain source.toList⟩

/-- Code with a question mark in a name, a quote in an interpolation, a sigil and a comment. -/
def mixedBlock : String := "if a?(\"#\x7bg(\"b\")\x7d\") do\n  ~s(fn) # end\nend"

def mixedPieces : List Piece :=
  [.code "if".toList, .code " ".toList, .code "a?".toList, .code "(".toList,
    .quoted "\"#\x7bg(\"b\")\x7d\"".toList, .code ")".toList, .code " ".toList, .opener "do",
    .code "\n".toList, .code " ".toList, .code " ".toList, .literal "~s(fn)".toList,
    .code " ".toList, .comment "# end".toList, .code "\n".toList, .closer]

theorem mixedPieces_reading : Reading mixedBlock.toList mixedPieces :=
  ⟨by decide, by decide +kernel, by decide⟩

theorem exists_tree (source : String)
    (h : (parse source defaultFile).value.toOption.isSome = true) :
    ∃ tree, (parse source defaultFile).value = .ok tree := by
  cases hparse : (parse source defaultFile).value with
  | error failure =>
    rw [hparse] at h
    cases h
  | ok tree => exact ⟨tree, rfl⟩

theorem parse_unclosedOpener_mixedBlock :
    ∃ tree, (parse mixedBlock defaultFile).value = .ok tree ∧
      unclosedOpener mixedBlock.toList = none := by
  obtain ⟨tree, hparse⟩ := exists_tree mixedBlock (by decide +kernel)
  obtain ⟨-, hplain⟩ := parse_unclosedOpener mixedBlock defaultFile tree hparse
  exact ⟨tree, hparse, hplain mixedPieces mixedPieces_reading (by decide +kernel)⟩

/-- A block that ends behind a name with a question mark. -/
def markedName : String := "foo do x? end"

/-- The scan takes the blank behind the name with the question mark, and does not see the word behind
it. -/
theorem parse_missed_closer :
    ∃ tree, (parse markedName defaultFile).value = .ok tree ∧
      unclosedOpener markedName.toList = some ("do", 1) := by
  obtain ⟨tree, hparse⟩ := exists_tree markedName (by decide +kernel)
  exact ⟨tree, hparse, by decide⟩

end LineScope.Grammar
