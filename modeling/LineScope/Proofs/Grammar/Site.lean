import LineScope.Analysis.Marker
import LineScope.Proofs.Grammar.Enclosing
import LineScope.Proofs.Grammar.Rule

/-!
# Markers in a source

The site of a marker is a line of the source that is the text of the marker and nothing else.  What a
token can be there follows from where it starts: in front of the line, a token that reaches into it
is a text in quotes and reaches over it; in the line, the name is read whole and the parenthesis
behind it opens arguments.
-/

namespace LineScope.Grammar

open LineScope.Text Terminal

/-! ### Steps of a cursor -/

/-- A cursor that knows the character before it. -/
structure Cursor.Placed (source : List Char) (c : Cursor) : Prop where
  inside : c.In source
  before : c.before = (source.take c.offset).getLast?

/-- From one cursor over a text to another. -/
structure Cursor.Over (source : List Char) (c : Cursor) (text : List Char) (c' : Cursor) : Prop where
  placed : c'.Placed source
  rest : c.rest = text ++ c'.rest
  offset : c'.offset = c.offset + text.length
  fault : c'.fault = c.fault

namespace Cursor

theorem In.rest_eq {source : List Char} {c : Cursor} (h : c.In source) :
    c.rest = source.drop c.offset := by
  have hlength : (source.take c.offset).length = c.offset := by simp [h.offset_le]
  have hdrop : (source.take c.offset ++ c.rest).drop c.offset = c.rest := List.drop_left' hlength
  rwa [← h.split, eq_comm] at hdrop

theorem In.rest_of_split {source : List Char} {c : Cursor} (h : c.In source) (front rest : List Char)
    (hsource : source = front ++ rest) (hoffset : c.offset = front.length) : c.rest = rest := by
  rw [h.rest_eq, hsource, hoffset, List.drop_left]

theorem In.offset_of_rest {source : List Char} {c : Cursor} (h : c.In source) (hrest : c.rest = []) :
    c.offset = source.length := by
  have hlength := congrArg List.length h.split
  rw [hrest, List.append_nil, List.length_take] at hlength
  have hle := h.offset_le
  omega

theorem Placed.over_nil {source : List Char} {c : Cursor} (h : c.Placed source) :
    c.Over source [] c :=
  ⟨h, rfl, rfl, rfl⟩

theorem Over.trans {source first second : List Char} {c c' c'' : Cursor}
    (h : c.Over source first c') (h' : c'.Over source second c'') :
    c.Over source (first ++ second) c'' := by
  refine ⟨h'.placed, ?_, ?_, h'.fault.trans h.fault⟩
  · rw [h.rest, h'.rest, List.append_assoc]
  · rw [h'.offset, h.offset, List.length_append]
    omega

theorem over_next (source : List Char) (c : Cursor) (h : c.Placed source) :
    c.Over source (c.rest.take 1) c.next := by
  cases hrest : c.rest with
  | nil =>
    have hnext : c.next = c := by simp [next, hrest]
    rw [hnext]
    exact h.over_nil
  | cons x xs =>
    have hsplit := h.inside.rest_eq
    have htake : source.take (c.offset + 1) = source.take c.offset ++ [x] := by
      rw [List.take_add, ← hsplit, hrest]
      rfl
    refine ⟨⟨next_in source c h.inside, ?_⟩, ?_, ?_, ?_⟩
    · simp [next, hrest, htake]
    · simp [next, hrest]
    · simp [next, hrest]
    · simp [next, hrest]

theorem over_advance (source : List Char) (n : Nat) (c : Cursor) (h : c.Placed source) :
    c.Over source (c.rest.take n) (c.advance n) := by
  induction n generalizing c with
  | zero => exact h.over_nil
  | succ n ih =>
    have hfirst := over_next source c h
    have hrest := hfirst.trans (ih c.next hfirst.placed)
    have htext : c.rest.take 1 ++ c.next.rest.take n = c.rest.take (n + 1) := by
      cases hr : c.rest with
      | nil => simp [next, hr]
      | cons x xs => simp [next, hr]
    rwa [htext] at hrest

end Cursor

/-- Blanks and a comment. -/
structure Ignored (text : List Char) : Prop where
  line : '\n' ∉ text
  head : ∀ c, text.head? = some c → c = ' ' ∨ c = '\t' ∨ c = '\x0c' ∨ c = '#'

theorem over_skipIgnored (source : List Char) (c : Cursor) (h : c.Placed source) :
    ∃ text, Ignored text ∧ c.Over source text c.skipIgnored := by
  have htake := take_ignoredWidth false c.rest
  exact ⟨_, ⟨htake.1, htake.2 rfl⟩, c.over_advance source _ h⟩

/-- Text in front of which nothing can be ignored. -/
theorem ignored_eq_nil (text rest : List Char) (c : Char) (tail : List Char) (h : Ignored text)
    (hrest : text ++ rest = c :: tail) (hc : ¬ (c = ' ' ∨ c = '\t' ∨ c = '\x0c' ∨ c = '#')) :
    text = [] := by
  cases text with
  | nil => rfl
  | cons d text =>
    obtain ⟨rfl, -⟩ := List.cons.inj hrest
    exact absurd (h.head d rfl) hc

/-- What it takes to read a token. -/
theorem token_found (source : List Char) (terminal : Terminal) (c : Cursor) (h : c.Placed source)
    (way : Token × Cursor) (hw : way ∈ (Rule.token terminal c).found) :
    ∃ w ignored, terminal c.before c.rest = some w ∧
      way.1 = ⟨String.ofList (c.rest.take w), c.line⟩ ∧ Ignored ignored ∧
        c.Over source (c.rest.take w ++ ignored) way.2 := by
  unfold Rule.token at hw
  split at hw
  · cases hw
  · rename_i w hwidth
    rw [List.mem_singleton.mp hw]
    have hfirst := c.over_advance source w h
    obtain ⟨ignored, hignored, hover⟩ := over_skipIgnored source (c.advance w) hfirst.placed
    exact ⟨w, ignored, hwidth, rfl, hignored, hfirst.trans hover⟩

/-! ### Sites -/

/-- The site of a marker: the text in front of its line, its line, and the text behind it. -/
structure Site (source : List Char) where
  front : List Char
  line : Nat
  behind : List Char
  split : source = front ++ (markerText line).toList ++ behind
  start : front = [] ∨ front.getLast? = some '\n'
  line_eq : line = front.count '\n' + 1

namespace Site

variable {source : List Char} (site : Site source)

/-- The name of the marker. -/
def word : List Char := (markerName site.line).toList

/-- The position of the name. -/
def nameStart : Nat := site.front.length + 1

/-- The position of the parenthesis behind the name. -/
def paren : Nat := site.front.length + 1 + site.word.length

theorem nameStart_le_paren : site.nameStart ≤ site.paren := by
  rw [nameStart, paren]
  omega

theorem barWord : BarWord site.word := by
  have hdigits : ∀ c ∈ (toString (site.line : Int)).toList, isNameChar c = true := by
    intro c hc
    rw [show toString (site.line : Int) = toString site.line from rfl, Nat.toString_eq_repr,
      Nat.toList_repr] at hc
    have hdigit := Nat.isDigit_of_mem_toDigits (by omega) (by omega) hc
    simp [isNameChar, Char.isAlphanum, hdigit]
  constructor
  · simp [word, markerName, markerStart]
  · intro c hc
    simp only [word, markerName, markerStart, String.toList_append, List.mem_append] at hc
    rcases hc with (hc | hc) | hc
    · have hall : "__exscope_marker_".toList.all isNameChar = true := by decide
      exact List.all_eq_true.mp hall c hc
    · exact hdigits c hc
    · have hall : "__".toList.all isNameChar = true := by decide
      exact List.all_eq_true.mp hall c hc

theorem source_eq :
    source = site.front ++ '(' :: (site.word ++ '(' :: ')' :: ')' :: site.behind) := by
  have htext : (markerText site.line).toList = '(' :: (site.word ++ ['(', ')', ')']) := by
    simp [markerText, word]
  have hsplit := site.split
  rw [htext] at hsplit
  simpa using hsplit

theorem paren_lt_length : site.paren < source.length := by
  have hlength := congrArg List.length site.source_eq
  simp only [List.length_append, List.length_cons] at hlength
  rw [paren]
  omega

theorem take_nameStart : source.take site.nameStart = site.front ++ ['('] := by
  have hsplit : source = site.front ++ ['('] ++ (site.word ++ '(' :: ')' :: ')' :: site.behind) := by
    rw [List.append_assoc]
    exact site.source_eq
  have hlength : site.nameStart = (site.front ++ ['(']).length := by simp [nameStart]
  rw [hlength]
  exact (List.prefix_iff_eq_take.mp ⟨_, hsplit.symm⟩).symm

theorem take_paren : source.take site.paren = site.front ++ '(' :: site.word := by
  have hsplit : source = site.front ++ '(' :: site.word ++ '(' :: ')' :: ')' :: site.behind := by
    rw [List.append_assoc]
    exact site.source_eq
  have hlength : site.paren = (site.front ++ '(' :: site.word).length := by
    rw [paren, List.length_append, List.length_cons]
    omega
  rw [hlength]
  exact (List.prefix_iff_eq_take.mp ⟨_, hsplit.symm⟩).symm

section Rest

variable {c : Cursor} (h : c.In source)

include h

theorem rest_of_offset_le (hle : c.offset ≤ site.front.length) :
    c.rest = site.front.drop c.offset ++ '(' :: (site.word ++ '(' :: ')' :: ')' :: site.behind) := by
  refine h.rest_of_split (site.front.take c.offset) _ ?_ (by simp [hle])
  rw [← List.append_assoc, List.take_append_drop]
  exact site.source_eq

theorem rest_of_offset_eq (heq : c.offset = site.nameStart) :
    c.rest = site.word ++ '(' :: ')' :: ')' :: site.behind := by
  refine h.rest_of_split (site.front ++ ['(']) _ ?_ (by simp [heq, nameStart])
  rw [List.append_assoc]
  exact site.source_eq

theorem rest_of_offset_paren (heq : c.offset = site.paren) :
    c.rest = '(' :: ')' :: ')' :: site.behind := by
  refine h.rest_of_split (site.front ++ '(' :: site.word) _ ?_ ?_
  · rw [List.append_assoc]
    exact site.source_eq
  · rw [heq, paren, List.length_append, List.length_cons]
    omega

theorem line_of_offset_eq (heq : c.offset = site.nameStart) : c.line = site.line := by
  rw [h.line_eq, heq, site.take_nameStart, site.line_eq]
  simp

theorem line_of_offset_paren (heq : c.offset = site.paren) : c.line = site.line := by
  have hword : site.word.count '\n' = 0 := by
    rw [List.count_eq_zero]
    intro hm
    have hname := site.barWord.chars _ hm
    revert hname
    decide
  rw [h.line_eq, heq, site.take_paren, site.line_eq, List.count_append, List.count_cons, hword]
  rfl

end Rest

/-- The name of a marker ends with an underscore. -/
theorem before_of_offset_paren {c : Cursor} (h : c.Placed source) (heq : c.offset = site.paren) :
    c.before = some '_' := by
  have hword : site.word = (markerStart ++ toString (site.line : Int) ++ "_").toList ++ ['_'] := by
    simp [word, markerName]
  rw [h.before, heq, site.take_paren, hword, ← List.cons_append, ← List.append_assoc,
    List.getLast?_concat]

theorem getLast?_drop_front {n : Nat} (h : n < site.front.length) :
    (site.front.drop n).getLast? = some '\n' := by
  rw [List.getLast?_drop, if_neg (by omega)]
  rcases site.start with hnil | hlast
  · rw [hnil] at h
    cases h
  · exact hlast

/-- A text that is read over the parenthesis at the start of a site. -/
theorem over_start {c c' : Cursor} {text : List Char} (h : c.In source) (hover : c.Over source text c')
    (hle : c.offset ≤ site.front.length) (hlt : site.front.length < c'.offset) :
    ∃ rest, text = site.front.drop c.offset ++ '(' :: rest ∧
      rest ++ c'.rest = site.word ++ '(' :: ')' :: ')' :: site.behind := by
  have hrest := (site.rest_of_offset_le h hle).symm.trans hover.rest
  have hlength : (site.front.drop c.offset).length < text.length := by
    rw [List.length_drop]
    have hoffset := hover.offset
    omega
  rcases List.append_eq_append_iff.mp hrest with ⟨tail, rfl, htail⟩ | ⟨tail, htext, -⟩
  · cases tail with
    | nil => simp at hlength
    | cons d rest =>
      obtain ⟨rfl, hword⟩ := List.cons.inj htail
      exact ⟨rest, rfl, hword.symm⟩
  · rw [htext, List.length_append] at hlength
    omega

/-- A text over the start of a site starts with a parenthesis there, or has one at the start of a
line. -/
theorem lineParen_of_over {c c' : Cursor} {text : List Char} (h : c.In source)
    (hover : c.Over source text c') (hle : c.offset ≤ site.front.length)
    (hlt : site.front.length < c'.offset) :
    (text.head? = some '(' ∧ c.offset = site.front.length) ∨ LineParen text := by
  obtain ⟨rest, rfl, -⟩ := site.over_start h hover hle hlt
  rcases Nat.lt_or_ge c.offset site.front.length with hin | hin
  · right
    obtain ⟨front, hfront⟩ := List.getLast?_eq_some_iff.mp (site.getLast?_drop_front hin)
    rw [hfront]
    exact ⟨front, rest, by simp⟩
  · left
    have hnil : site.front.drop c.offset = [] := by simp [hin]
    rw [hnil]
    exact ⟨rfl, by omega⟩

/-! ### Tokens at a site -/

section Token

variable {c c' : Cursor} {m ignored : List Char} (h : c.In source)
  (hover : c.Over source (m ++ ignored) c') (hne : m ≠ [])

include h hover hne

theorem head_of_offset_eq (heq : c.offset = site.nameStart) : m.head? = some '_' := by
  obtain ⟨tail, hword, -⟩ := site.barWord.cons
  have hrest := (site.rest_of_offset_eq h heq).symm.trans hover.rest
  have hfirst := congrArg List.head? hrest
  rw [hword, List.append_assoc, List.head?_append_of_ne_nil _ hne] at hfirst
  exact hfirst.symm

theorem head_of_offset_paren (heq : c.offset = site.paren) : m.head? = some '(' := by
  have hrest := (site.rest_of_offset_paren h heq).symm.trans hover.rest
  have hfirst := congrArg List.head? hrest
  rw [List.append_assoc, List.head?_append_of_ne_nil _ hne] at hfirst
  exact hfirst.symm

variable (hignored : Ignored ignored)

include hignored

/-- A token without parentheses at the start of lines stops in front of a site. -/
theorem stops_before (hhead : m.head? ≠ some '(' ∨ c.offset ≠ site.front.length)
    (hparen : ¬ LineParen m) (hle : c.offset ≤ site.front.length) :
    c'.offset ≤ site.front.length := by
  by_contra hlt
  rcases site.lineParen_of_over h hover hle (by omega) with ⟨hfirst, hoffset⟩ | hline
  · rw [List.head?_append_of_ne_nil _ hne] at hfirst
    rcases hhead with hhead | hhead
    · exact hhead hfirst
    · exact hhead hoffset
  · refine lineParen_append m ignored hparen hignored.line (fun he => ?_) hline
    rcases hignored.head _ he with he | he | he | he <;> cases he

variable (houtside : c.offset ≤ site.nameStart ∨ site.paren ≤ c.offset)

include houtside

theorem over_flat (hflat : FlatText m) : c'.offset ≤ site.front.length ∨ site.paren < c.offset := by
  rcases Nat.lt_trichotomy c.offset site.nameStart with hlt | heq | hgt
  · rw [nameStart] at hlt
    exact .inl (site.stops_before h hover hne hignored (.inl hflat.head_paren) hflat.lineParen
      (by omega))
  · exact absurd (site.head_of_offset_eq h hover hne heq) hflat.head_bar
  · have hge : site.paren ≤ c.offset := houtside.resolve_left (by omega)
    refine .inr (Nat.lt_of_le_of_ne hge fun heq => ?_)
    exact hflat.head_paren (site.head_of_offset_paren h hover hne heq.symm)

/-- The name at a site is read whole. -/
theorem over_name {w : Nat} (hw : name c.before c.rest = some w) (hm : m = c.rest.take w) :
    c'.offset ≤ site.front.length ∨
      (c.offset = site.nameStart ∧ c'.offset = site.paren ∧ m = site.word) ∨
        site.paren < c.offset := by
  have htake := take_name c.before '(' c.rest w (by decide) (by decide) (by decide) hw
  rw [← hm] at htake
  rcases Nat.lt_trichotomy c.offset site.nameStart with hlt | heq | hgt
  · rw [nameStart] at hlt
    refine .inl (site.stops_before h hover hne hignored (.inl fun he => ?_) (fun hp => ?_) (by omega))
    · exact htake.2 (List.mem_of_mem_head? he)
    · exact htake.2 (mem_of_lineParen m hp).2
  · have hrest := site.rest_of_offset_eq h heq
    rw [hrest, name_barWord c.before site.word _ site.barWord] at hw
    cases hw
    rw [hrest, List.take_left] at hm
    have hbehind := hover.rest
    rw [hrest, hm, List.append_assoc, List.append_cancel_left_eq] at hbehind
    have hnil := ignored_eq_nil ignored c'.rest '(' _ hignored hbehind.symm (by decide)
    have hoffset := hover.offset
    rw [hnil, List.append_nil, hm, heq] at hoffset
    exact .inr (.inl ⟨heq, hoffset, hm⟩)
  · have hge : site.paren ≤ c.offset := houtside.resolve_left (by omega)
    refine .inr (.inr (Nat.lt_of_le_of_ne hge fun heq => ?_))
    exact htake.2 (List.mem_of_mem_head? (site.head_of_offset_paren h hover hne heq.symm))

/-- Behind the parenthesis in front of a site stands the name, and behind the one that follows the
name a closing one. -/
theorem over_paren (hm : m = ['(']) :
    c'.offset ≤ site.front.length ∨ c'.offset = site.nameStart ∨
      (c.offset = site.paren ∧ c'.offset = site.paren + 1 ∧ c'.rest = ')' :: ')' :: site.behind) ∨
        site.paren < c.offset := by
  rcases Nat.lt_trichotomy c.offset site.nameStart with hlt | heq | hgt
  · rw [nameStart] at hlt
    by_cases hstart : c.offset = site.front.length
    · right; left
      have hrest := site.rest_of_offset_le h (by omega)
      have hbehind := hrest.symm.trans hover.rest
      obtain ⟨tail, hword, -⟩ := site.barWord.cons
      rw [hstart, List.drop_length, hm, hword] at hbehind
      have hnil := ignored_eq_nil ignored c'.rest '_' _ hignored (List.cons.inj hbehind).2.symm
        (by decide)
      have hoffset := hover.offset
      rw [hnil, hm, hstart] at hoffset
      exact hoffset
    · refine .inl (site.stops_before h hover hne hignored (.inr hstart) (fun hp => ?_) (by omega))
      rw [hm] at hp
      simpa using (mem_of_lineParen _ hp).1
  · have hhead := site.head_of_offset_eq h hover hne heq
    rw [hm] at hhead
    cases hhead
  · have hge : site.paren ≤ c.offset := houtside.resolve_left (by omega)
    rcases Nat.lt_or_ge site.paren c.offset with hpast | hat
    · exact .inr (.inr (.inr hpast))
    · right; right; left
      have heq : c.offset = site.paren := by omega
      have hbehind := (site.rest_of_offset_paren h heq).symm.trans hover.rest
      rw [hm] at hbehind
      have hrest : ignored ++ c'.rest = ')' :: ')' :: site.behind := (List.cons.inj hbehind).2.symm
      have hnil := ignored_eq_nil ignored c'.rest ')' _ hignored hrest (by decide)
      have hoffset := hover.offset
      rw [hnil, hm, heq] at hoffset
      rw [hnil, List.nil_append] at hrest
      exact ⟨heq, hoffset, hrest⟩

omit hne houtside in
/-- A token over the start of a site covers the parenthesis there. -/
theorem covers_start (hle : c.offset ≤ site.front.length) (hlt : site.front.length < c'.offset) :
    ∃ rest, m = site.front.drop c.offset ++ '(' :: rest ∧
      rest ++ (ignored ++ c'.rest) = site.word ++ '(' :: ')' :: ')' :: site.behind := by
  obtain ⟨rest, htext, hrest⟩ := site.over_start h hover hle hlt
  rcases List.append_eq_append_iff.mp htext with ⟨tail, hfront, htail⟩ | ⟨tail, hm, htail⟩
  · -- the parenthesis would be ignored, or the line feed in front of it
    exfalso
    cases htailnil : tail with
    | nil =>
      rw [htailnil] at htail
      have hhead := hignored.head '(' (by rw [htail]; rfl)
      revert hhead
      decide
    | cons d tail =>
      have hlength : 0 < (site.front.drop c.offset).length := by
        rw [hfront, htailnil, List.length_append, List.length_cons]
        omega
      rw [List.length_drop] at hlength
      have hend := site.getLast?_drop_front (n := c.offset) (by omega)
      rw [hfront, htailnil, List.getLast?_append_of_ne_nil _ (List.cons_ne_nil _ _)] at hend
      refine hignored.line ?_
      rw [htail, htailnil]
      exact List.mem_append_left _ (List.mem_of_getLast? hend)
  · cases tail with
    | nil =>
      exfalso
      have hhead := hignored.head '(' (by rw [← List.nil_append ignored, ← htail]; rfl)
      revert hhead
      decide
    | cons d tail =>
      obtain ⟨rfl, rfl⟩ := List.cons.inj htail
      refine ⟨tail, hm, ?_⟩
      rw [← List.append_assoc]
      exact hrest

/-- A token with a closing character that reaches into a site reaches over it. -/
theorem over_enclosing {terminal : Terminal} (hterminal : Enclosing terminal) {w : Nat}
    (hw : terminal c.before c.rest = some w) (hm : m = c.rest.take w) :
    c'.offset ≤ site.front.length ∨ (Planted site.word m ∧ site.paren < c'.offset) ∨
      site.paren < c.offset := by
  have hhead : m.head? ≠ some '(' := hm ▸ hterminal.head_paren _ _ w hw
  rcases Nat.lt_trichotomy c.offset site.nameStart with hlt | heq | hgt
  · rw [nameStart] at hlt
    rcases Nat.lt_or_ge site.front.length c'.offset with hover' | hstop
    · right; left
      obtain ⟨rest, hrest, hword⟩ := site.covers_start h hover hignored (by omega) hover'
      have hclosed : ClosedText m := by
        rw [hm]
        refine hterminal.closed _ _ w hw ?_
        rw [← hm, hrest]
        exact List.mem_append_right _ List.mem_cons_self
      obtain ⟨y, hy⟩ := exists_of_closedText hclosed hrest site.barWord.chars hword
      have hin : c.offset < site.front.length := by
        by_contra hat
        refine hhead ?_
        rw [hrest, List.drop_of_length_le (by omega)]
        rfl
      obtain ⟨x, hx⟩ := List.getLast?_eq_some_iff.mp (site.getLast?_drop_front hin)
      refine ⟨⟨x, y, ?_⟩, ?_⟩
      · rw [hrest, hx, hy]
        simp
      · have hoffset := hover.offset
        have hlength : m.length = (site.front.length - c.offset) + (site.word.length + y.length + 2) := by
          rw [hrest, hy]
          simp only [List.length_append, List.length_drop, List.length_cons]
          omega
        rw [List.length_append, hlength] at hoffset
        rw [paren]
        omega
    · exact .inl hstop
  · rw [site.rest_of_offset_eq h heq, hterminal.barWord c.before site.word _ site.barWord] at hw
    cases hw
  · have hge : site.paren ≤ c.offset := houtside.resolve_left (by omega)
    refine .inr (.inr (Nat.lt_of_le_of_ne hge fun heq => ?_))
    exact hhead (site.head_of_offset_paren h hover hne heq.symm)

end Token

/-- A cursor behind the parenthesis of a site, without a fault on its way. -/
def Passed (c : Cursor) : Prop := site.paren < c.offset ∧ c.fault = none

end Site

/-! ### Cursors and sites -/

/-- A cursor that stands in no name of a site. -/
structure Cursor.Stands (source : List Char) (c : Cursor) : Prop where
  placed : c.Placed source
  outside : ∀ site : Site source, c.offset ≤ site.nameStart ∨ site.paren ≤ c.offset

section Tokens

variable {source : List Char} {c : Cursor} {way : Token × Cursor}

theorem flat_token {terminal : Terminal} (hflat : Flat terminal) (h : c.Stands source)
    (hw : way ∈ (Rule.token terminal c).found) :
    way.2.Stands source ∧ way.2.fault = c.fault ∧
      ∀ site : Site source, way.2.offset ≤ site.front.length ∨
        (site.paren < c.offset ∧ site.paren < way.2.offset) := by
  obtain ⟨w, ignored, hwidth, -, hignored, hover⟩ := token_found source terminal c h.placed way hw
  have hm := hflat _ _ w hwidth
  have hsite : ∀ site : Site source, way.2.offset ≤ site.front.length ∨
      (site.paren < c.offset ∧ site.paren < way.2.offset) := by
    intro site
    have hoffset := hover.offset
    rcases site.over_flat h.placed.inside hover hm.ne_nil hignored (h.outside site) hm with hle | hlt
    · exact .inl hle
    · exact .inr ⟨hlt, by omega⟩
  refine ⟨⟨hover.placed, fun site => ?_⟩, hover.fault, hsite⟩
  rcases hsite site with hle | hlt
  · exact .inl (by rw [Site.nameStart]; omega)
  · exact .inr (by omega)

theorem name_token (h : c.Stands source) (hw : way ∈ (Rule.token name c).found) :
    way.2.Stands source ∧ way.2.fault = c.fault ∧ way.1.line = c.line ∧ c.offset ≤ way.2.offset ∧
      (∀ site : Site source, way.2.offset ≤ site.front.length ∨
        (c.offset = site.nameStart ∧ way.2.offset = site.paren ∧
          way.1.text = markerName site.line) ∨
        (site.paren < c.offset ∧ site.paren < way.2.offset)) ∧
      way.1.text.toList <+: c.rest := by
  obtain ⟨w, ignored, hwidth, htoken, hignored, hover⟩ := token_found source name c h.placed way hw
  have hne := (take_name _ '(' _ w (by decide) (by decide) (by decide) hwidth).1
  have hsite : ∀ site : Site source, way.2.offset ≤ site.front.length ∨
      (c.offset = site.nameStart ∧ way.2.offset = site.paren ∧
        way.1.text = markerName site.line) ∨
      (site.paren < c.offset ∧ site.paren < way.2.offset) := by
    intro site
    have hoffset := hover.offset
    rcases site.over_name h.placed.inside hover hne hignored (h.outside site) hwidth rfl with
      hle | ⟨hstart, hparen, hword⟩ | hlt
    · exact .inl hle
    · refine .inr (.inl ⟨hstart, hparen, ?_⟩)
      rw [htoken, hword, Site.word, String.ofList_toList]
    · exact .inr (.inr ⟨hlt, by omega⟩)
  refine ⟨⟨hover.placed, fun site => ?_⟩, hover.fault, by rw [htoken], ?_, hsite, ?_⟩
  · rcases hsite site with hle | ⟨-, heq, -⟩ | hlt
    · exact .inl (by rw [Site.nameStart]; omega)
    · exact .inr (by omega)
    · exact .inr (by omega)
  · rw [hover.offset]
    exact Nat.le_add_right _ _
  · rw [htoken, String.toList_ofList]
    exact List.take_prefix w c.rest

/-- How a parenthesis is read. -/
theorem paren_token (allowed : Option Char → Bool) (h : c.Stands source)
    (hw : way ∈ (Rule.token (fun before cs => if allowed before then textWidth "(" cs else none)
      c).found) :
    way.2.Stands source ∧ way.2.fault = c.fault ∧ allowed c.before = true ∧
      c.offset < way.2.offset ∧ ∀ site : Site source, way.2.offset ≤ site.nameStart ∨
        (c.offset = site.paren ∧ way.2.offset = site.paren + 1 ∧
          way.2.rest = ')' :: ')' :: site.behind) ∨
        (site.paren < c.offset ∧ site.paren < way.2.offset) := by
  obtain ⟨w, ignored, hwidth, -, hignored, hover⟩ := token_found source _ c h.placed way hw
  obtain ⟨hallowed, hm⟩ : allowed c.before = true ∧ c.rest.take w = ['('] := by
    split at hwidth
    · rename_i hallowed
      exact ⟨hallowed, take_textWidth "(" c.rest w hwidth⟩
    · cases hwidth
  rw [hm] at hover
  have hsite : ∀ site : Site source, way.2.offset ≤ site.nameStart ∨
      (c.offset = site.paren ∧ way.2.offset = site.paren + 1 ∧
          way.2.rest = ')' :: ')' :: site.behind) ∨
      (site.paren < c.offset ∧ site.paren < way.2.offset) := by
    intro site
    have hoffset := hover.offset
    rcases site.over_paren h.placed.inside hover (List.cons_ne_nil _ _) hignored (h.outside site) rfl
      with hle | heq | hat | hlt
    · exact .inl (by rw [Site.nameStart]; omega)
    · exact .inl (by omega)
    · exact .inr (.inl hat)
    · exact .inr (.inr ⟨hlt, by omega⟩)
  refine ⟨⟨hover.placed, fun site => ?_⟩, hover.fault, hallowed, ?_, hsite⟩
  · rcases hsite site with hle | hat | hlt
    · exact .inl hle
    · exact .inr (by omega)
    · exact .inr (by omega)
  · rw [hover.offset, List.length_append, List.length_singleton]
    omega

theorem enclosing_token {terminal : Terminal} (hterminal : Enclosing terminal) (h : c.Stands source)
    (hw : way ∈ (Rule.token terminal c).found) :
    way.2.Stands source ∧ way.2.fault = c.fault ∧
      (∀ site : Site source, way.2.offset ≤ site.front.length ∨
        (Planted site.word way.1.text.toList ∧ site.paren < way.2.offset) ∨
        (site.paren < c.offset ∧ site.paren < way.2.offset)) ∧
      ∃ before cs w, terminal before cs = some w ∧ way.1.text.toList = cs.take w := by
  obtain ⟨w, ignored, hwidth, htoken, hignored, hover⟩ := token_found source terminal c h.placed way hw
  have htext : way.1.text.toList = c.rest.take w := by rw [htoken, String.toList_ofList]
  have hsite : ∀ site : Site source, way.2.offset ≤ site.front.length ∨
      (Planted site.word way.1.text.toList ∧ site.paren < way.2.offset) ∨
      (site.paren < c.offset ∧ site.paren < way.2.offset) := by
    intro site
    have hoffset := hover.offset
    rcases site.over_enclosing h.placed.inside hover (hterminal.ne_nil _ _ w hwidth) hignored
      (h.outside site) hterminal hwidth rfl with hle | ⟨hplanted, hlt⟩ | hlt
    · exact .inl hle
    · exact .inr (.inl ⟨htext ▸ hplanted, hlt⟩)
    · exact .inr (.inr ⟨hlt, by omega⟩)
  refine ⟨⟨hover.placed, fun site => ?_⟩, hover.fault, hsite, _, _, w, hwidth, htext⟩
  rcases hsite site with hle | ⟨-, hlt⟩ | hlt
  · exact .inl (by rw [Site.nameStart]; omega)
  · exact .inr (by omega)
  · exact .inr (by omega)

theorem start_stands (source : List Char) : (Cursor.start source).skipIgnored.Stands source ∧
    ∀ site : Site source, ¬ site.Passed (Cursor.start source).skipIgnored := by
  have hplaced : (Cursor.start source).Placed source := ⟨Cursor.start_in source, rfl⟩
  obtain ⟨text, hignored, hover⟩ := over_skipIgnored source _ hplaced
  have hsite : ∀ site : Site source,
      (Cursor.start source).skipIgnored.offset ≤ site.front.length := by
    intro site
    by_contra hlt
    rcases site.lineParen_of_over hplaced.inside hover (Nat.zero_le _) (by omega) with
      ⟨hhead, -⟩ | hline
    · rcases hignored.head _ hhead with he | he | he | he <;> cases he
    · exact hignored.line (mem_of_lineParen _ hline).1
  refine ⟨⟨hover.placed, fun site => .inl ?_⟩, fun site hpassed => ?_⟩
  · have hle := hsite site
    rw [Site.nameStart]
    omega
  · have hle := hsite site
    have hlt := hpassed.1
    rw [Site.paren] at hlt
    omega

end Tokens

end LineScope.Grammar
