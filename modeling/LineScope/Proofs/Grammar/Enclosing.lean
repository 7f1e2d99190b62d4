import LineScope.Proofs.Grammar.Terminal

/-!
# Tokens with a closing character

Texts in quotes and sigils may reach over a parenthesis at the start of a line.  They end with a
closing character, so one that reaches over the parenthesis and the name behind it reaches over the
next parenthesis as well.
-/

namespace LineScope.Grammar.Terminal

open LineScope.Text

/-! ### Closing characters -/

/-- In a text a closing character stands only behind a backslash. -/
def Guarded (close : Char) (front : List Char) : Prop :=
  ∀ x y, front = x ++ close :: y → x.getLast? = some '\\'

theorem Guarded.head_ne {close : Char} {front : List Char} (h : Guarded close front) :
    front.head? ≠ some close := by
  intro hhead
  obtain ⟨rest, rfl⟩ := List.head?_eq_some_iff.mp hhead
  cases h [] rest rfl

theorem Guarded.escape {close : Char} {front : List Char} (hclose : close ≠ '\\') (e : Char)
    (h : Guarded close front) : Guarded close ('\\' :: e :: front) := by
  intro x y hsplit
  match x with
  | [] => exact absurd (List.cons.inj hsplit).1.symm hclose
  | [c] =>
    obtain ⟨rfl, -⟩ := List.cons.inj hsplit
    rfl
  | c :: d :: x =>
    obtain ⟨-, hsplit⟩ := List.cons.inj hsplit
    have hlast := h x y (List.cons.inj hsplit).2
    rw [List.getLast?_cons, List.getLast?_cons, hlast]
    rfl

theorem Guarded.cons {close : Char} {front : List Char} (c : Char) (hc : c ≠ close)
    (h : Guarded close front) : Guarded close (c :: front) := by
  intro x y hsplit
  match x with
  | [] => exact absurd (List.cons.inj hsplit).1 hc
  | d :: x =>
    have hlast := h x y (List.cons.inj hsplit).2
    rw [List.getLast?_cons, hlast]
    rfl

theorem closingWidth_split (close : Char) (plain escaped : Char → Bool) (hclose : close ≠ '\\')
    (cs : List Char) (w : Nat) (h : closingWidth close plain escaped cs = some w) :
    ∃ front rest, cs = front ++ close :: rest ∧ w = front.length + 1 ∧ Guarded close front := by
  fun_induction closingWidth close plain escaped cs generalizing w with
  | case1 => cases h
  | case2 => cases h
  | case3 e rest he ih =>
    obtain ⟨width, hwidth, rfl⟩ := Option.map_eq_some_iff.mp h
    obtain ⟨front, behind, rfl, rfl, hguarded⟩ := ih width hwidth
    exact ⟨'\\' :: e :: front, behind, rfl, rfl, hguarded.escape hclose e⟩
  | case4 => cases h
  | case5 cs hslash =>
    cases h
    exact ⟨[], cs, rfl, rfl, fun x y hnil => by simp at hnil⟩
  | case6 c cs hslash hc hplain ih =>
    obtain ⟨width, hwidth, rfl⟩ := Option.map_eq_some_iff.mp h
    obtain ⟨front, behind, rfl, rfl, hguarded⟩ := ih width hwidth
    exact ⟨c :: front, behind, rfl, rfl, hguarded.cons c hc⟩
  | case7 => cases h

theorem take_closingWidth (close : Char) (plain escaped : Char → Bool) (hclose : close ≠ '\\')
    (cs : List Char) (w : Nat) (h : closingWidth close plain escaped cs = some w) :
    ∃ front, cs.take w = front ++ [close] ∧ front.head? ≠ some close := by
  obtain ⟨front, rest, rfl, rfl, hguarded⟩ := closingWidth_split close plain escaped hclose cs w h
  exact ⟨front, by simp [List.take_append], hguarded.head_ne⟩

theorem take_interpolatedWidth (close : Char) (inHole : Bool) (cs : List Char) (w : Nat)
    (h : interpolatedWidth close inHole cs = some w) : ∃ front, cs.take w = front ++ [close] := by
  have hcons : ∀ (c : Char) (rest : List Char) (width : Nat),
      (∃ front, rest.take width = front ++ [close]) →
        ∃ front, (c :: rest).take (width + 1) = front ++ [close] := by
    rintro c rest width ⟨front, hfront⟩
    exact ⟨c :: front, by rw [List.take_succ_cons, hfront]; rfl⟩
  fun_induction interpolatedWidth close inHole cs generalizing w with
  | case1 => cases h
  | case2 c cs ih =>
    obtain ⟨width, hwidth, rfl⟩ := Option.map_eq_some_iff.mp h
    exact hcons c cs width (ih width hwidth)
  | case3 => cases h
  | case4 e rest ih =>
    obtain ⟨width, hwidth, rfl⟩ := Option.map_eq_some_iff.mp h
    exact hcons _ _ _ (hcons e rest width (ih width hwidth))
  | case5 cs hslash =>
    cases h
    exact ⟨[], rfl⟩
  | case6 c cs hslash hc hhole width hwidth ih =>
    cases h
    exact hcons c cs width (ih width hwidth)
  | case7 c cs hslash hc hhole hnone ih1 ih2 =>
    obtain ⟨width, hwidth, rfl⟩ := Option.map_eq_some_iff.mp h
    exact hcons c cs width (ih2 width hwidth)
  | case8 c cs hslash hc hhole ih =>
    obtain ⟨width, hwidth, rfl⟩ := Option.map_eq_some_iff.mp h
    exact hcons c cs width (ih width hwidth)

theorem threeClosingWidth_split (mark : Char) (cs : List Char) (w : Nat)
    (h : threeClosingWidth mark cs = some w) :
    ∃ front rest, cs = front ++ (threeOf mark ++ rest) ∧ w = front.length + 3 ∧
      ¬ threeOf mark <:+: front := by
  fun_induction threeClosingWidth mark cs generalizing w with
  | case1 => cases h
  | case2 c cs hmark =>
    cases h
    obtain ⟨rest, hrest⟩ := List.isPrefixOf_iff_prefix.mp hmark
    refine ⟨[], rest, hrest.symm, rfl, ?_⟩
    rw [List.infix_nil]
    exact List.cons_ne_nil _ _
  | case3 c cs hmark ih =>
    obtain ⟨width, hwidth, rfl⟩ := Option.map_eq_some_iff.mp h
    obtain ⟨front, rest, rfl, rfl, hinfix⟩ := ih width hwidth
    refine ⟨c :: front, rest, rfl, rfl, ?_⟩
    rw [List.infix_cons_iff, not_or]
    refine ⟨fun hstarts => hmark ?_, hinfix⟩
    rw [List.isPrefixOf_iff_prefix, ← List.cons_append]
    exact hstarts.trans (List.prefix_append _ _)

/-! ### Texts in quotes -/

theorem take_quotedWidth (cs : List Char) (w : Nat) (h : quotedWidth cs = some w) :
    ∃ front, cs.take w = '"' :: (front ++ ['"']) := by
  unfold quotedWidth at h
  split at h
  · obtain ⟨width, hwidth, rfl⟩ := Option.map_eq_some_iff.mp h
    obtain ⟨front, hfront, -⟩ := take_closingWidth _ _ _ (by decide) _ width hwidth
    exact ⟨front, by rw [List.take_succ_cons, hfront]⟩
  · cases h

theorem take_quotedText (mark : Char) (before : Option Char) (cs : List Char) (w : Nat)
    (h : quotedText mark before cs = some w) : ∃ front, cs.take w = mark :: (front ++ [mark]) := by
  unfold quotedText at h
  split at h
  · cases h
  · rename_i c rest
    split at h
    · rename_i hc
      obtain ⟨width, hwidth, rfl⟩ := Option.map_eq_some_iff.mp h
      obtain ⟨front, hfront⟩ := take_interpolatedWidth _ _ _ width hwidth
      have hmark : c = mark := by simpa using (Bool.and_eq_true_iff.mp hc).1
      exact ⟨front, by rw [List.take_succ_cons, hfront, hmark]⟩
    · cases h

theorem heredocWidth_split (mark : Char) (cs : List Char) (w : Nat)
    (h : heredocWidth mark cs = some w) :
    ∃ front rest, cs = threeOf mark ++ (front ++ (threeOf mark ++ rest)) ∧ w = front.length + 6 ∧
      ¬ threeOf mark <:+: front := by
  unfold heredocWidth at h
  split at h
  · rename_i hmark
    obtain ⟨rest, rfl⟩ := List.isPrefixOf_iff_prefix.mp hmark
    obtain ⟨width, hwidth, rfl⟩ := Option.map_eq_some_iff.mp h
    have hdrop : (threeOf mark ++ rest).drop 3 = rest := rfl
    rw [hdrop] at hwidth
    obtain ⟨front, behind, rfl, rfl, hinfix⟩ := threeClosingWidth_split mark rest width hwidth
    exact ⟨front, behind, rfl, rfl, hinfix⟩
  · cases h

theorem take_heredocWidth (mark : Char) (cs : List Char) (w : Nat)
    (h : heredocWidth mark cs = some w) :
    ∃ front, cs.take w = threeOf mark ++ (front ++ threeOf mark) := by
  obtain ⟨front, rest, rfl, rfl, -⟩ := heredocWidth_split mark cs w h
  have hlength : front.length + 6 = (threeOf mark ++ (front ++ threeOf mark)).length := by
    simp [threeOf]
  have hsplit : threeOf mark ++ (front ++ (threeOf mark ++ rest)) =
      threeOf mark ++ (front ++ threeOf mark) ++ rest := by
    simp only [List.append_assoc]
  exact ⟨front, by rw [hlength, hsplit, List.take_left]⟩

/-- The parts of an atom or a keyword key: a text in quotes, or something without parentheses. -/
theorem take_atom (before : Option Char) (cs : List Char) (w : Nat) (h : atom before cs = some w) :
    ∃ body, cs.take w = ':' :: body ∧ ('(' ∉ body ∨ ∃ front, body = '"' :: (front ++ ['"'])) := by
  unfold atom at h
  split at h
  · rename_i cs
    obtain ⟨width, hwidth, rfl⟩ := Option.map_eq_some_iff.mp h
    refine ⟨cs.take width, List.take_succ_cons, ?_⟩
    simp only [Option.or_eq_some_iff] at hwidth
    rcases hwidth with hname | ⟨_, hquoted | ⟨_, hsymbol⟩⟩
    · exact .inl (take_nameWidth _ _ '(' cs width (by decide) (by decide) (by decide) hname).2
    · exact .inr (take_quotedWidth cs width hquoted)
    · obtain ⟨symbol, hmem, hsymbol⟩ := List.exists_of_findSome?_eq_some hsymbol
      have hall : ∀ symbol ∈ atomSymbols, isFlatWord symbol = true := by decide
      rw [take_textWidth symbol cs width hsymbol]
      refine .inl fun hm => ?_
      have hflat := hall symbol hmem
      unfold isFlatWord at hflat
      split at hflat
      · cases hflat
      · rename_i c rest htext
        rw [htext] at hm
        simp only [Bool.and_eq_true, Bool.not_eq_true', List.contains_eq_mem,
          decide_eq_false_iff_not] at hflat
        exact hflat.2 hm
  · cases h

theorem take_keywordKey (before : Option Char) (cs : List Char) (w : Nat)
    (h : keywordKey before cs = some w) :
    ∃ body, cs.take w = body ++ [':'] ∧ body ≠ [] ∧
      ('(' ∉ body ∨ ∃ front, body = '"' :: (front ++ ['"'])) := by
  unfold keywordKey at h
  split at h
  · cases h
  · rename_i width hwidth
    split at h
    · rename_i rest hrest
      split at h
      · cases h
        refine ⟨cs.take width, ?_, ?_⟩
        · rw [List.take_add, hrest]
          rfl
        · rcases (Option.or_eq_some_iff).mp hwidth with hname | ⟨_, hquoted⟩
          · have htake := take_nameWidth _ _ '(' cs width (by decide) (by decide) (by decide) hname
            exact ⟨htake.1, .inl htake.2⟩
          · obtain ⟨front, hfront⟩ := take_quotedWidth cs width hquoted
            exact ⟨by rw [hfront]; exact List.cons_ne_nil _ _, .inr ⟨front, hfront⟩⟩
      · cases h
    · cases h

theorem keywordKey_barWord (before : Option Char) (word rest : List Char) (h : BarWord word) :
    keywordKey before (word ++ '(' :: rest) = none := by
  obtain ⟨tail, rfl, htail⟩ := h.cons
  have hname := nameWidth_append_paren isNameStart isNameChar '_' tail rest (by decide) htail
    (by decide)
  unfold keywordKey
  rw [hname, Option.some_or]
  dsimp only
  rw [show tail.length + 1 = ('_' :: tail).length from rfl, List.drop_left]
  rfl

/-! ### Texts that reach over parentheses -/

/-- A text with a closing character behind which no parenthesis stands. -/
def ClosedText (m : List Char) : Prop :=
  ∃ front close behind, m = front ++ close :: behind ∧ isNameChar close = false ∧
    '(' ∉ close :: behind

/-- A terminal whose matches end with a closing character if they reach over a parenthesis at the
start of a line. -/
structure Enclosing (terminal : Terminal) : Prop where
  ne_nil : ∀ before cs w, terminal before cs = some w → cs.take w ≠ []
  head_paren : ∀ before cs w, terminal before cs = some w → (cs.take w).head? ≠ some '('
  closed : ∀ before cs w, terminal before cs = some w → '(' ∈ cs.take w → ClosedText (cs.take w)
  barWord : ∀ before word rest, BarWord word → terminal before (word ++ '(' :: rest) = none

theorem enclosing_of_head (terminal : Terminal) (first : Char) (hparen : first ≠ '(')
    (hbar : first ≠ '_')
    (hhead : ∀ before cs w, terminal before cs = some w → (cs.take w).head? = some first)
    (hclosed : ∀ before cs w, terminal before cs = some w → '(' ∈ cs.take w →
      ClosedText (cs.take w)) : Enclosing terminal := by
  refine ⟨fun before cs w hw he => ?_, fun before cs w hw he => ?_, hclosed,
    fun before word rest hword => ?_⟩
  · have hfirst := hhead before cs w hw
    rw [he] at hfirst
    cases hfirst
  · rw [hhead before cs w hw] at he
    exact hparen (Option.some.inj he)
  · obtain ⟨tail, rfl, -⟩ := hword.cons
    cases hw : terminal before ('_' :: tail ++ '(' :: rest) with
    | none => rfl
    | some w =>
      have hfirst := hhead _ _ w hw
      cases w with
      | zero => cases hfirst
      | succ w => exact absurd (Option.some.inj hfirst).symm hbar

theorem closedText_concat (front : List Char) (close : Char) (hname : isNameChar close = false)
    (hparen : close ≠ '(') : ClosedText (front ++ [close]) := by
  refine ⟨front, close, [], rfl, hname, ?_⟩
  rw [List.mem_singleton]
  exact Ne.symm hparen

theorem enclosing_of_marks (terminal : Terminal) (mark : Char) (h : mark = '"' ∨ mark = '\'')
    (hmarks : ∀ before cs w, terminal before cs = some w →
      ∃ front, cs.take w = mark :: (front ++ [mark])) : Enclosing terminal := by
  have hmark : mark ≠ '(' ∧ mark ≠ '_' ∧ isNameChar mark = false := by
    rcases h with rfl | rfl <;> decide
  refine enclosing_of_head terminal mark hmark.1 hmark.2.1 (fun before cs w hw => ?_)
    fun before cs w hw _ => ?_
  · obtain ⟨front, hfront⟩ := hmarks before cs w hw
    rw [hfront, List.head?_cons]
  · obtain ⟨front, hfront⟩ := hmarks before cs w hw
    rw [hfront, ← List.cons_append]
    exact closedText_concat _ mark hmark.2.2 hmark.1

theorem enclosing_quotedText (mark : Char) (h : mark = '"' ∨ mark = '\'') :
    Enclosing (quotedText mark) :=
  enclosing_of_marks _ mark h (take_quotedText mark)

theorem enclosing_heredoc (mark : Char) (h : mark = '"' ∨ mark = '\'') :
    Enclosing (heredoc mark) := by
  refine enclosing_of_marks _ mark h fun before cs w hw => ?_
  obtain ⟨front, hfront⟩ := take_heredocWidth mark cs w hw
  refine ⟨mark :: mark :: (front ++ [mark, mark]), ?_⟩
  rw [hfront, threeOf]
  simp

theorem enclosing_atom : Enclosing atom := by
  refine enclosing_of_head atom ':' (by decide) (by decide) (fun before cs w hw => ?_)
    fun before cs w hw hparen => ?_
  · obtain ⟨body, hbody, -⟩ := take_atom before cs w hw
    rw [hbody, List.head?_cons]
  · obtain ⟨body, hbody, hplain | ⟨front, rfl⟩⟩ := take_atom before cs w hw
    · rw [hbody] at hparen
      exact absurd ((List.mem_cons.mp hparen).resolve_left (by decide)) hplain
    · rw [hbody, ← List.cons_append, ← List.cons_append]
      exact closedText_concat _ '"' (by decide) (by decide)

theorem enclosing_keywordKey : Enclosing keywordKey := by
  refine ⟨fun before cs w hw => ?_, fun before cs w hw he => ?_, fun before cs w hw _ => ?_,
    keywordKey_barWord⟩
  · obtain ⟨body, hbody, -⟩ := take_keywordKey before cs w hw
    rw [hbody]
    exact List.append_ne_nil_of_right_ne_nil _ (List.cons_ne_nil _ _)
  · obtain ⟨body, hbody, hne, hplain | ⟨front, rfl⟩⟩ := take_keywordKey before cs w hw
    · rw [hbody, List.head?_append_of_ne_nil _ hne] at he
      exact hplain (List.mem_of_mem_head? he)
    · rw [hbody] at he
      cases he
  · obtain ⟨body, hbody, -⟩ := take_keywordKey before cs w hw
    rw [hbody]
    exact closedText_concat body ':' (by decide) (by decide)

/-- A text that holds a word in parentheses at the start of a line. -/
def Planted (word m : List Char) : Prop :=
  ∃ x y, m = x ++ '\n' :: '(' :: (word ++ '(' :: y)

/-- A closing character behind a parenthesis and in a text that goes on with a word stands behind the
parenthesis that follows the word. -/
theorem exists_of_closedText {m front rest word behind : List Char} (h : ClosedText m)
    (hm : m = front ++ '(' :: rest) (hword : ∀ c ∈ word, isNameChar c = true) {more : List Char}
    (hrest : rest ++ more = word ++ '(' :: behind) : ∃ y, rest = word ++ '(' :: y := by
  obtain ⟨before, close, last, hclosed, hname, hparen⟩ := h
  have hclose : close ≠ '(' := fun he => hparen (he ▸ List.mem_cons_self)
  -- the closing character stands behind the first parenthesis
  obtain ⟨inner, hinner⟩ : ∃ inner, rest = inner ++ close :: last := by
    rcases List.append_eq_append_iff.mp (hm.symm.trans hclosed) with
      ⟨tail, hbefore, htail⟩ | ⟨tail, hfront, htail⟩
    · cases tail with
      | nil => exact absurd (List.cons.inj htail).1.symm hclose
      | cons d tail => exact ⟨tail, (List.cons.inj htail).2⟩
    · refine absurd ?_ hparen
      rw [htail]
      exact List.mem_append_right _ List.mem_cons_self
  -- and behind the word, which holds none
  rw [hinner, List.append_assoc] at hrest
  rcases List.append_eq_append_iff.mp hrest with ⟨tail, hsplit, htail⟩ | ⟨tail, hsplit, htail⟩
  · cases tail with
    | nil => exact absurd (List.cons.inj htail).1 hclose
    | cons d tail =>
      have hd : close = d := (List.cons.inj htail).1
      have hmem : close ∈ word := by
        rw [hsplit, hd]
        exact List.mem_append_right _ List.mem_cons_self
      rw [hword close hmem] at hname
      cases hname
  · cases tail with
    | nil => exact absurd (List.cons.inj htail).1.symm hclose
    | cons d tail =>
      obtain ⟨rfl, -⟩ := List.cons.inj htail
      refine ⟨tail ++ close :: last, ?_⟩
      rw [hinner, hsplit, List.append_assoc]
      rfl

end LineScope.Grammar.Terminal
