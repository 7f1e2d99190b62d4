import LineScope.Proofs.Grammar.Sigil
import LineScope.Proofs.Text.DisplayLines

/-!
# Values of texts

A text in quotes that holds a word in parentheses at the start of a line denotes a value that holds
the word: neither the delimiters nor escapes nor the indentation of a heredoc reach into it.
-/

namespace LineScope.Grammar.Decode

open LineScope.Text Terminal

/-! ### Words in parentheses -/

/-- A text that holds a word in parentheses. -/
def Held (word m : List Char) : Prop := ∃ x y, m = x ++ '(' :: (word ++ '(' :: y)

variable {word m front behind : List Char}

theorem held_of_planted (h : Planted word m) : Held word m := by
  obtain ⟨x, y, rfl⟩ := h
  exact ⟨x ++ ['\n'], y, by simp⟩

theorem exists_of_append_left {c : Char} {x y : List Char} (hfront : c ∉ front)
    (h : front ++ m = x ++ c :: y) : ∃ x', m = x' ++ c :: y := by
  rcases List.append_eq_append_iff.mp h with ⟨tail, rfl, htail⟩ | ⟨tail, rfl, htail⟩
  · exact ⟨tail, htail⟩
  · cases tail with
    | nil => exact ⟨[], htail.symm⟩
    | cons d tail =>
      obtain ⟨rfl, -⟩ := List.cons.inj htail
      exact absurd (List.mem_append_right x List.mem_cons_self) hfront

theorem exists_of_append_right {c : Char} {x y : List Char} (hbehind : c ∉ behind)
    (h : m ++ behind = x ++ c :: y) : ∃ y', m = x ++ c :: y' := by
  rcases List.append_eq_append_iff.mp h with ⟨tail, rfl, htail⟩ | ⟨tail, rfl, htail⟩
  · rw [htail] at hbehind
    exact absurd (List.mem_append_right tail List.mem_cons_self) hbehind
  · cases tail with
    | nil =>
      rw [List.nil_append] at htail
      rw [← htail] at hbehind
      exact absurd List.mem_cons_self hbehind
    | cons d tail =>
      obtain ⟨rfl, -⟩ := List.cons.inj htail
      exact ⟨tail, rfl⟩

theorem held_of_append_left (hfront : '(' ∉ front) (h : Held word (front ++ m)) : Held word m := by
  obtain ⟨x, y, hsplit⟩ := h
  obtain ⟨x', hm⟩ := exists_of_append_left hfront hsplit
  exact ⟨x', y, hm⟩

theorem held_of_append_right (hbehind : '(' ∉ behind) (h : Held word (m ++ behind)) :
    Held word m := by
  obtain ⟨x, y, hsplit⟩ := h
  rw [← List.cons_append, ← List.append_assoc] at hsplit
  obtain ⟨y', hm⟩ := exists_of_append_right hbehind hsplit
  exact ⟨x, y', by rw [hm]; simp⟩

theorem planted_of_append_left (hfront : '\n' ∉ front) (h : Planted word (front ++ m)) :
    Planted word m := by
  obtain ⟨x, y, hsplit⟩ := h
  obtain ⟨x', hm⟩ := exists_of_append_left hfront hsplit
  exact ⟨x', y, hm⟩

theorem planted_of_append_right (hbehind : '(' ∉ behind) (h : Planted word (m ++ behind)) :
    Planted word m := by
  obtain ⟨x, y, hsplit⟩ := h
  rw [← List.cons_append, ← List.cons_append, ← List.append_assoc] at hsplit
  obtain ⟨y', hm⟩ := exists_of_append_right hbehind hsplit
  exact ⟨x, y', by rw [hm]; simp⟩

/-! ### Escapes -/

theorem unescape_cons (c : Char) (cs : List Char) (h : c ≠ '\\') :
    unescape (c :: cs) = c :: unescape cs := by
  rw [unescape.eq_def]
  dsimp only
  rw [if_neg h]

theorem unescape_append_paren (x z : List Char) :
    ∃ u, unescape (x ++ '(' :: z) = u ++ unescape z := by
  have hparen : unescape ('(' :: z) = ['('] ++ unescape z := unescape_cons '(' z (by decide)
  fun_induction unescape x with
  | case1 => exact ⟨['('], hparen⟩
  | case2 => exact ⟨['('], by simp [unescape, escaped]⟩
  | case3 rest ih =>
    obtain ⟨u, hu⟩ := ih
    exact ⟨u, by simp [unescape, hu]⟩
  | case4 e rest he ih =>
    obtain ⟨u, hu⟩ := ih
    exact ⟨escaped e :: u, by simp [unescape, he, hu]⟩
  | case5 c cs hc ih =>
    obtain ⟨u, hu⟩ := ih
    refine ⟨c :: u, ?_⟩
    rw [List.cons_append, unescape_cons c _ hc, hu, List.cons_append]

theorem unescape_append_word (word z : List Char) (h : '\\' ∉ word) :
    unescape (word ++ z) = word ++ unescape z := by
  induction word with
  | nil => rfl
  | cons c word ih =>
    rw [List.mem_cons, not_or] at h
    rw [List.cons_append, unescape_cons c _ (Ne.symm h.1), ih h.2, List.cons_append]

theorem infix_unescape (hword : BarWord word) (h : Held word m) : word <:+: unescape m := by
  obtain ⟨x, y, rfl⟩ := h
  have hslash : '\\' ∉ word := by
    intro hm
    have hname := hword.chars _ hm
    revert hname
    decide
  obtain ⟨u, hu⟩ := unescape_append_paren x (word ++ '(' :: y)
  rw [hu, unescape_append_word word _ hslash, ← List.append_assoc]
  exact List.infix_append _ _ _

/-! ### Quotes -/

theorem inside_one (first last : Char) (front : List Char) :
    inside 1 (first :: (front ++ [last])) = front := by
  simp [inside]

theorem infix_inside (hword : BarWord word) (first last : Char) (front : List Char)
    (hlast : last ≠ '(') (hfirst : first ≠ '\n') (h : Planted word (first :: (front ++ [last]))) :
    word <:+: unescape (inside 1 (first :: (front ++ [last]))) := by
  rw [inside_one]
  have hheld : Held word (front ++ [last]) := by
    have hline : '\n' ∉ [first] := by
      rw [List.mem_singleton]
      exact Ne.symm hfirst
    exact held_of_planted (planted_of_append_left hline h)
  refine infix_unescape hword (held_of_append_right ?_ hheld)
  rw [List.mem_singleton]
  exact Ne.symm hlast

theorem infix_quoted (hword : BarWord word) (text : String) (mark : Char)
    (hmark : mark = '"' ∨ mark = '\'') (hshape : ∃ front, text.toList = mark :: (front ++ [mark]))
    (h : Planted word text.toList) : word <:+: (quoted text).toList := by
  obtain ⟨front, hfront⟩ := hshape
  rw [hfront] at h
  rw [quoted, String.toList_ofList, hfront]
  rcases hmark with rfl | rfl
  · exact infix_inside hword _ _ front (by decide) (by decide) h
  · exact infix_inside hword _ _ front (by decide) (by decide) h

theorem infix_nameText (hword : BarWord word) (body : List Char)
    (hshape : '(' ∉ body ∨ ∃ front, body = '"' :: (front ++ ['"'])) (h : Planted word body) :
    word <:+: (nameText body).toList := by
  rcases hshape with hplain | ⟨front, rfl⟩
  · obtain ⟨x, y, rfl⟩ := h
    exact absurd (by simp) hplain
  · rw [nameText, String.toList_ofList]
    exact infix_inside hword _ _ front (by decide) (by decide) h

theorem infix_atom (hword : BarWord word) (text : String) (body : List Char)
    (htext : text.toList = ':' :: body)
    (hshape : '(' ∉ body ∨ ∃ front, body = '"' :: (front ++ ['"']))
    (h : Planted word text.toList) : word <:+: (atom text).toList := by
  rw [htext] at h
  rw [atom, htext]
  have hcolon : '\n' ∉ [':'] := by decide
  exact infix_nameText hword body hshape (planted_of_append_left hcolon h)

theorem infix_keywordKey (hword : BarWord word) (text : String) (body : List Char)
    (htext : text.toList = body ++ [':'])
    (hshape : '(' ∉ body ∨ ∃ front, body = '"' :: (front ++ ['"']))
    (h : Planted word text.toList) : word <:+: (keywordKey text).toList := by
  rw [htext] at h
  rw [keywordKey, htext, List.dropLast_concat]
  exact infix_nameText hword body hshape (planted_of_append_right (by decide) h)

/-! ### Heredocs -/

theorem inside_three (mark : Char) (front : List Char) :
    inside 3 (threeOf mark ++ (front ++ threeOf mark)) = front := by
  simp [inside, threeOf]

theorem held_append (front behind : List Char) (h : Held word m) :
    Held word (front ++ m ++ behind) := by
  obtain ⟨x, y, rfl⟩ := h
  exact ⟨front ++ x, y ++ behind, by simp⟩

theorem held_flatMap {α : Type} (f : α → List Char) (items : List α) (item : α) (hm : item ∈ items)
    (h : Held word (f item)) : Held word (items.flatMap f) := by
  obtain ⟨before, after, rfl⟩ := List.append_of_mem hm
  rw [List.flatMap_append, List.flatMap_cons, ← List.append_assoc]
  exact held_append _ _ h

theorem exists_displayLines_append (u z : List Char) (hne : u ≠ [])
    (h : ∀ c ∈ u, isLineBreak c = false) :
    ∃ l ls t, displayLines (u ++ z) = l :: ls ∧ l.text = u ++ t := by
  cases hz : displayLines z with
  | nil =>
    rw [displayLines_eq_nil z hz, List.append_nil]
    exact ⟨_, _, [], displayLines_of_no_break u h hne, (List.append_nil u).symm⟩
  | cons first ls => exact ⟨_, _, first.text, displayLines_append u z first ls h hz, rfl⟩

theorem isLineBreak_of_barWord (hword : BarWord word) : ∀ c ∈ '(' :: (word ++ ['(']),
    isLineBreak c = false := by
  intro c hc
  have hname : isNameChar c = true ∨ c = '(' := by
    simp only [List.mem_cons, List.mem_append, List.not_mem_nil, or_false] at hc
    rcases hc with rfl | hc | rfl
    · exact .inr rfl
    · exact .inl (hword.chars c hc)
    · exact .inr rfl
  rcases hname with hname | rfl
  · change (((decide ('A'.val ≤ c.val ∧ c.val ≤ 'Z'.val) ||
      decide ('a'.val ≤ c.val) && decide (c.val ≤ 'z'.val)) ||
        decide ('0'.val ≤ c.val) && decide (c.val ≤ '9'.val)) || c == '_') = true at hname
    simp only [Bool.or_eq_true, Bool.and_eq_true, decide_eq_true_eq, beq_iff_eq] at hname
    have hbound : 48 ≤ c.toNat ∧ c.toNat ≤ 122 := by
      rcases hname with ((⟨hlo, hhi⟩ | ⟨hlo, hhi⟩) | ⟨hlo, hhi⟩) | rfl
      · exact ⟨Nat.le_trans (by decide) (UInt32.le_iff_toNat_le.mp hlo),
          Nat.le_trans (UInt32.le_iff_toNat_le.mp hhi) (by decide)⟩
      · exact ⟨Nat.le_trans (by decide) (UInt32.le_iff_toNat_le.mp hlo),
          Nat.le_trans (UInt32.le_iff_toNat_le.mp hhi) (by decide)⟩
      · exact ⟨Nat.le_trans (by decide) (UInt32.le_iff_toNat_le.mp hlo),
          Nat.le_trans (UInt32.le_iff_toNat_le.mp hhi) (by decide)⟩
      · decide
    simp only [isLineBreak, Bool.or_eq_false_iff, Bool.and_eq_false_iff, decide_eq_false_iff_not,
      beq_eq_false_iff_ne]
    omega
  · decide

theorem exists_displayLine (hword : BarWord word) (h : Held word m) :
    ∃ l ∈ displayLines m, Held word l.text := by
  obtain ⟨x, y, rfl⟩ := h
  induction x with
  | nil =>
    have hsplit : [] ++ '(' :: (word ++ '(' :: y) = '(' :: (word ++ ['(']) ++ y := by simp
    obtain ⟨l, ls, t, hlines, htext⟩ := exists_displayLines_append ('(' :: (word ++ ['('])) y
      (List.cons_ne_nil _ _) (isLineBreak_of_barWord hword)
    rw [hsplit, hlines]
    exact ⟨l, List.mem_cons_self, [], t, by rw [htext]; simp⟩
  | cons c x ih =>
    obtain ⟨l, hl, hheld⟩ := ih
    rw [List.cons_append]
    cases hc : isLineBreak c with
    | true =>
      rcases displayLines_break_cases c _ hc with hlines | ⟨-, ending, ls, hrest, hlines⟩
      · rw [hlines]
        exact ⟨l, List.mem_cons_of_mem _ hl, hheld⟩
      · rw [hrest] at hl
        rw [hlines]
        rcases List.mem_cons.mp hl with rfl | hl
        · obtain ⟨x', y', hnil⟩ := hheld
          simp at hnil
        · exact ⟨l, List.mem_cons_of_mem _ hl, hheld⟩
    | false =>
      rw [displayLines_cons c _ hc]
      cases hlines : displayLines (x ++ '(' :: (word ++ '(' :: y)) with
      | nil =>
        rw [hlines] at hl
        cases hl
      | cons first ls =>
        rw [hlines] at hl
        dsimp only
        rcases List.mem_cons.mp hl with rfl | hl
        · refine ⟨_, List.mem_cons_self, ?_⟩
          have hcons := held_append [c] [] hheld
          rwa [List.append_nil] at hcons
        · exact ⟨l, List.mem_cons_of_mem _ hl, hheld⟩

theorem held_outdent (indent line : List Char) (hindent : '(' ∉ indent) (h : Held word line) :
    Held word (outdent indent line) := by
  unfold outdent
  split
  · rename_i hprefix
    obtain ⟨rest, rfl⟩ := List.isPrefixOf_iff_prefix.mp hprefix
    rw [List.drop_left]
    exact held_of_append_left hindent h
  · rw [← List.takeWhile_append_dropWhile (p := isIndent) (l := line)] at h
    refine held_of_append_left (fun hm => ?_) h
    have hblank := List.mem_takeWhile_imp hm
    revert hblank
    decide

theorem held_dropLineEnd (h : Held word m) : Held word (dropLineEnd m) := by
  unfold dropLineEnd
  split
  · have hend : '(' ∉ ['\r', '\n'] := by decide
    exact held_of_append_left hend h
  · have hend : '(' ∉ ['\n'] := by decide
    exact held_of_append_left hend h
  · exact h

theorem held_heredocBody (hword : BarWord word) (mark : Char) (hmark : mark = '"' ∨ mark = '\'')
    (front : List Char) (h : Planted word (threeOf mark ++ (front ++ threeOf mark))) :
    Held word (heredocBody (threeOf mark ++ (front ++ threeOf mark))) := by
  have hmarks : '\n' ∉ threeOf mark ∧ '(' ∉ threeOf mark := by rcases hmark with rfl | rfl <;> decide
  have hbody : Held word (dropLineEnd front) := by
    refine held_dropLineEnd (held_of_planted ?_)
    exact planted_of_append_right hmarks.2 (planted_of_append_left hmarks.1 h)
  unfold heredocBody
  rw [inside_three]
  dsimp only
  generalize dropLineEnd front = body at hbody
  split
  · exact hbody
  · generalize hindent : (body.reverse.takeWhile (· != '\n')).reverse = indent
    have hsuffix : indent <:+ body := by
      rw [← hindent, ← List.reverse_prefix, List.reverse_reverse]
      exact List.takeWhile_prefix _
    split
    · exact hbody
    · rename_i hall
      have hparen : '(' ∉ indent := by
        intro hm
        have hblank : indent.all isIndent = true := by simpa using hall
        have hfalse := List.all_eq_true.mp hblank _ hm
        revert hfalse
        decide
      have hlines : Held word (body.take (body.length - indent.length)) := by
        refine held_of_append_right hparen ?_
        rwa [List.suffix_iff_eq_append.mp hsuffix]
      split
      · exact hlines
      · obtain ⟨l, hl, hheld⟩ := exists_displayLine hword hlines
        refine held_flatMap _ _ l hl (held_outdent indent _ hparen ?_)
        exact held_append [] l.ending hheld

theorem infix_heredoc (hword : BarWord word) (text : String) (mark : Char)
    (hmark : mark = '"' ∨ mark = '\'')
    (hshape : ∃ front, text.toList = threeOf mark ++ (front ++ threeOf mark))
    (h : Planted word text.toList) : word <:+: (heredoc text).toList := by
  obtain ⟨front, hfront⟩ := hshape
  rw [hfront] at h
  rw [heredoc, String.toList_ofList, hfront]
  exact infix_unescape hword (held_heredocBody hword mark hmark front h)

/-! ### Sigils -/

theorem infix_sigil (text : String) {letter : Char} {opening content close modifiers : List Char}
    (hparts : SigilParts text.toList letter opening content close modifiers)
    (h : Planted word text.toList) (found : Sigil) (hfound : sigil text = .ok found) :
    word <:+: found.content.toList := by
  cases hparts.sigil_eq.symm.trans hfound
  rw [hparts.text] at h
  have hline : '\n' ∉ '~' :: letter :: opening := by
    simp only [List.mem_cons, not_or]
    exact ⟨by decide, Ne.symm hparts.letter_ne_newline, hparts.newline_notMem⟩
  have hcontent : Planted word content :=
    planted_of_append_right hparts.paren_notMem (planted_of_append_left hline h)
  obtain ⟨x, y, hsplit⟩ := hcontent
  rw [String.toList_ofList]
  exact ⟨x ++ ['\n', '('], '(' :: y, by rw [hsplit]; simp⟩

end LineScope.Grammar.Decode
