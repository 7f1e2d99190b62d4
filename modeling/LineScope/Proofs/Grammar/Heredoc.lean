import LineScope.Proofs.Grammar.Decode
import Mathlib.Data.List.Chain

/-!
# Heredocs

The body of a heredoc is what its lines hold behind the indentation of the closing delimiter.  Two
kinds of heredocs are read otherwise: one without lines whose closing delimiter is indented, and one
with a line in which a blank follows a break that is no line feed, because the decoder cuts lines at
all breaks.
-/

namespace LineScope.Grammar.Decode

open LineScope.Text Terminal

/-! ### Indentations -/

variable {indent : List Char}

theorem outdent_append (line : List Char) : outdent indent (indent ++ line) = line := by
  rw [outdent, if_pos (List.isPrefixOf_iff_prefix.mpr (List.prefix_append _ _)), List.drop_left]

/-- A line that starts with no blank has no indentation to lose. -/
theorem outdent_of_head (hne : indent ≠ []) (hindent : indent.all isIndent = true)
    (line : List Char) (hline : line.head?.any isIndent = false) : outdent indent line = line := by
  cases line with
  | nil =>
    rw [outdent, List.drop_nil, List.dropWhile_nil, ite_self]
  | cons c line =>
    have hc : isIndent c = false := hline
    have hstarts : ¬ indent.isPrefixOf (c :: line) = true := by
      rw [List.isPrefixOf_iff_prefix]
      rintro ⟨rest, hrest⟩
      cases indent with
      | nil => exact hne rfl
      | cons d indent =>
        have hd : isIndent d = true := List.all_eq_true.mp hindent d List.mem_cons_self
        rw [(List.cons.inj hrest).1, hc] at hd
        cases hd
    rw [outdent, if_neg hstarts, List.dropWhile_cons_of_neg (by simp [hc])]

theorem length_outdent_lt (hne : indent ≠ []) (c : Char) (line : List Char)
    (hc : isIndent c = true) : (outdent indent (c :: line)).length < (c :: line).length := by
  have hpos : 0 < indent.length := List.length_pos_iff.mpr hne
  unfold outdent
  split
  · rw [List.length_drop, List.length_cons]
    omega
  · rw [List.dropWhile_cons_of_pos hc]
    have hle := (List.dropWhile_sublist isIndent (l := line)).length_le
    rw [List.length_cons]
    omega

/-! ### Lines without their indentation -/

/-- Display lines without the indentation. -/
def outdented (indent : List Char) (ls : List DisplayLine) : List Char :=
  ls.flatMap fun l => outdent indent (l.text ++ l.ending)

/-- Display lines without the indentation, but for the first, which stands behind it. -/
def outdentedBelow (indent : List Char) : List DisplayLine → List Char
  | [] => []
  | l :: ls => l.text ++ l.ending ++ outdented indent ls

theorem outdented_append (hindent : indent.all isIndent = true) (line : List Char)
    (hne : line ≠ []) :
    outdented indent (displayLines (indent ++ line)) =
      outdentedBelow indent (displayLines line) := by
  have hplain : ∀ c ∈ indent, isLineBreak c = false := by
    intro c hc
    have hblank : c = ' ' ∨ c = '\t' := by
      simpa [isIndent] using List.all_eq_true.mp hindent c hc
    rcases hblank with rfl | rfl <;> rfl
  cases hlines : displayLines line with
  | nil => exact absurd (displayLines_eq_nil line hlines) hne
  | cons l ls =>
    rw [displayLines_append indent line l ls hplain hlines, outdented, List.flatMap_cons,
      List.append_assoc, outdent_append]
    rfl

section Below

variable (hne : indent ≠ []) (hindent : indent.all isIndent = true)

include hne hindent

theorem outdented_of_head (line : List Char) (hline : line.head?.any isIndent = false) :
    outdented indent (displayLines line) = outdentedBelow indent (displayLines line) := by
  cases hlines : displayLines line with
  | nil => rfl
  | cons l ls =>
    have hhead := displayLines_head line l ls hlines
    rw [outdented, List.flatMap_cons, outdent_of_head hne hindent _ (hhead ▸ hline)]
    rfl

/-- A character is kept, whatever it is, if no blank follows it. -/
theorem outdentedBelow_cons (c : Char) (cs : List Char)
    (h : isLineBreak c = true → cs.head?.any isIndent = false) :
    outdentedBelow indent (displayLines (c :: cs)) =
      c :: outdentedBelow indent (displayLines cs) := by
  cases hc : isLineBreak c with
  | false =>
    rw [displayLines_cons c cs hc]
    cases displayLines cs with
    | nil => rfl
    | cons l ls => rfl
  | true =>
    by_cases hfeed : c = '\r' ∧ cs.head? = some '\n'
    · obtain ⟨rfl, hhead⟩ := hfeed
      obtain ⟨rest, rfl⟩ := List.head?_eq_some_iff.mp hhead
      rw [displayLines_return_feed, displayLines_feed]
      rfl
    · rw [displayLines_break c cs hc fun hr hn => hfeed ⟨hr, hn⟩,
        ← outdented_of_head hne hindent cs (h hc)]
      rfl

omit hindent in
/-- A blank behind a break is lost. -/
theorem length_outdentedBelow_lt (c d : Char) (cs : List Char) (hc : isLineBreak c = true)
    (hd : isIndent d = true) :
    (outdentedBelow indent (displayLines (c :: d :: cs))).length <
      (outdentedBelow indent (displayLines (d :: cs))).length + 1 := by
  have hnotFeed : (d :: cs).head? ≠ some '\n' := by
    intro hhead
    rw [Option.some.inj hhead] at hd
    exact absurd hd (by decide)
  rw [displayLines_break c _ hc fun _ => hnotFeed]
  cases hlines : displayLines (d :: cs) with
  | nil => exact absurd (displayLines_eq_nil _ hlines) (List.cons_ne_nil _ _)
  | cons l ls =>
    have hhead := displayLines_head _ l ls hlines
    obtain ⟨rest, hrest⟩ := List.head?_eq_some_iff.mp hhead
    have hlt := length_outdent_lt hne d rest hd
    simp only [outdentedBelow, outdented, List.flatMap_cons, List.length_append, hrest,
      List.nil_append, List.length_cons, List.length_nil] at hlt ⊢
    omega

/-! ### One line -/

/-- A line in which no blank follows a break. -/
def HasNoInnerMargin (line : List Char) : Prop :=
  line.IsChain fun c d => isLineBreak c = true → isIndent d = false

omit hne hindent in
instance (line : List Char) : Decidable (HasNoInnerMargin line) :=
  inferInstanceAs (Decidable (List.IsChain _ line))

theorem outdentedBelow_line (line rest : List Char) (h : HasNoInnerMargin line) :
    outdentedBelow indent (displayLines (line ++ '\n' :: rest)) =
      line ++ '\n' :: outdented indent (displayLines rest) := by
  induction line with
  | nil =>
    rw [List.nil_append, displayLines_feed]
    rfl
  | cons c line ih =>
    obtain ⟨hhead, htail⟩ := List.isChain_cons.mp h
    rw [List.cons_append, outdentedBelow_cons hne hindent c _ fun hc => ?_, ih htail,
      List.cons_append]
    cases line with
    | nil => rfl
    | cons d line => exact hhead d rfl hc

theorem length_outdentedBelow_line (line rest : List Char) :
    (outdentedBelow indent (displayLines (line ++ '\n' :: rest))).length ≤
        line.length + 1 + (outdented indent (displayLines rest)).length ∧
      (¬ HasNoInnerMargin line →
        (outdentedBelow indent (displayLines (line ++ '\n' :: rest))).length <
          line.length + 1 + (outdented indent (displayLines rest)).length) := by
  induction line with
  | nil =>
    rw [List.nil_append, displayLines_feed]
    refine ⟨?_, fun h => absurd List.IsChain.nil h⟩
    simp only [outdentedBelow, List.length_append, List.length_cons, List.length_nil]
    omega
  | cons c line ih =>
    rw [List.cons_append, List.length_cons]
    by_cases hkept : isLineBreak c = true → (line ++ '\n' :: rest).head?.any isIndent = false
    · rw [outdentedBelow_cons hne hindent c _ hkept, List.length_cons]
      refine ⟨by omega, fun h => ?_⟩
      have hline : ¬ HasNoInnerMargin line := by
        refine fun htail => h (List.isChain_cons.mpr ⟨fun d hd hc => ?_, htail⟩)
        have hlost := hkept hc
        rwa [List.head?_append, hd] at hlost
      have hlt := ih.2 hline
      omega
    · obtain ⟨hc, hblank⟩ := Classical.not_imp.mp hkept
      cases line with
      | nil => exact absurd rfl hblank
      | cons d line =>
        have hd : isIndent d = true := by simpa using hblank
        have hlt := length_outdentedBelow_lt hne c d (line ++ '\n' :: rest) hc hd
        rw [List.cons_append] at ih ⊢
        exact ⟨by omega, fun _ => by omega⟩

/-! ### All lines -/

/-- Lines behind an indentation, each with the line feed that ends it. -/
def indentedLines (indent : List Char) (lines : List (List Char)) : List Char :=
  lines.flatMap fun line => indent ++ (line ++ ['\n'])

omit hne in
theorem outdented_indentedLines_cons (line : List Char) (lines : List (List Char)) :
    outdented indent (displayLines (indentedLines indent (line :: lines))) =
      outdentedBelow indent (displayLines (line ++ '\n' :: indentedLines indent lines)) := by
  have hsplit : indentedLines indent (line :: lines) =
      indent ++ (line ++ '\n' :: indentedLines indent lines) := by
    simp [indentedLines]
  rw [hsplit, outdented_append hindent _ (by simp)]

theorem outdented_indentedLines (lines : List (List Char))
    (h : ∀ line ∈ lines, HasNoInnerMargin line) :
    outdented indent (displayLines (indentedLines indent lines)) =
      lines.flatMap (· ++ ['\n']) := by
  induction lines with
  | nil => rfl
  | cons line lines ih =>
    rw [outdented_indentedLines_cons hindent,
      outdentedBelow_line hne hindent line _ (h line List.mem_cons_self),
      ih fun other ho => h other (List.mem_cons_of_mem _ ho), List.flatMap_cons, List.append_assoc,
      List.singleton_append]

theorem length_outdented_indentedLines (lines : List (List Char)) :
    (outdented indent (displayLines (indentedLines indent lines))).length ≤
        (lines.flatMap (· ++ ['\n'])).length ∧
      ((∃ line ∈ lines, ¬ HasNoInnerMargin line) →
        (outdented indent (displayLines (indentedLines indent lines))).length <
          (lines.flatMap (· ++ ['\n'])).length) := by
  induction lines with
  | nil => exact ⟨Nat.le_refl _, fun ⟨_, hline, _⟩ => absurd hline List.not_mem_nil⟩
  | cons line lines ih =>
    have hfirst := length_outdentedBelow_line hne hindent line (indentedLines indent lines)
    rw [outdented_indentedLines_cons hindent, List.flatMap_cons, List.length_append,
      List.length_append, List.length_singleton]
    refine ⟨by omega, ?_⟩
    rintro ⟨other, hmem, hmargin⟩
    rcases List.mem_cons.mp hmem with rfl | hmem
    · have hlt := hfirst.2 hmargin
      omega
    · have hlt := ih.2 ⟨other, hmem, hmargin⟩
      omega

end Below

/-! ### The body -/

/-- A heredoc whose lines stand behind the indentation of its closing delimiter. -/
def heredocText (mark : Char) (indent : List Char) (lines : List (List Char)) : List Char :=
  threeOf mark ++ '\n' :: (indentedLines indent lines ++ indent ++ threeOf mark)

theorem newline_not_mem_indent (hindent : indent.all isIndent = true) : '\n' ∉ indent :=
  fun hmem => absurd (List.all_eq_true.mp hindent _ hmem) (by decide)

theorem exists_indentedLines_eq (indent line : List Char) (lines : List (List Char)) :
    ∃ front, indentedLines indent (line :: lines) = front ++ ['\n'] := by
  induction lines generalizing line with
  | nil => exact ⟨indent ++ line, by simp [indentedLines]⟩
  | cons next lines ih =>
    obtain ⟨front, hfront⟩ := ih next
    refine ⟨indent ++ (line ++ ['\n']) ++ front, ?_⟩
    rw [List.append_assoc, ← hfront]
    rfl

theorem dropLineEnd_heredocText (mark : Char) (lines : List (List Char)) :
    dropLineEnd (inside 3 (heredocText mark indent lines)) =
      indentedLines indent lines ++ indent := by
  have hinside : inside 3 (heredocText mark indent lines) =
      '\n' :: (indentedLines indent lines ++ indent) :=
    inside_three mark ('\n' :: (indentedLines indent lines ++ indent))
  rw [hinside]
  rfl

/-- Without lines, the indentation of the closing delimiter is all there is, and it is kept. -/
theorem heredocBody_nil (mark : Char) (hindent : indent.all isIndent = true) :
    heredocBody (heredocText mark indent []) = indent := by
  have hbody : dropLineEnd (inside 3 (heredocText mark indent [])) = indent :=
    dropLineEnd_heredocText mark []
  have hplain : indent.contains '\n' = false := by
    rw [List.contains_eq_mem, decide_eq_false_iff_not]
    exact newline_not_mem_indent hindent
  rw [heredocBody, hbody]
  simp only [hplain, Bool.not_false, if_true]

theorem heredocBody_cons (mark : Char) (hindent : indent.all isIndent = true)
    (line : List Char) (lines : List (List Char)) :
    heredocBody (heredocText mark indent (line :: lines)) =
      if indent = [] then indentedLines indent (line :: lines)
      else outdented indent (displayLines (indentedLines indent (line :: lines))) := by
  obtain ⟨front, hfront⟩ := exists_indentedLines_eq indent line lines
  have hcontains : (front ++ ['\n'] ++ indent).contains '\n' = true := by simp
  have hlast : ((front ++ ['\n'] ++ indent).reverse.takeWhile (· != '\n')).reverse = indent := by
    have hplain : ∀ c ∈ indent.reverse, (c != '\n') = true := by
      intro c hc
      rw [bne_iff_ne]
      rintro rfl
      exact newline_not_mem_indent hindent (List.mem_reverse.mp hc)
    rw [List.reverse_append, List.reverse_append, List.reverse_singleton, List.singleton_append,
      List.takeWhile_append_of_pos hplain, List.takeWhile_cons_of_neg (by simp), List.append_nil,
      List.reverse_reverse]
  rw [heredocBody, dropLineEnd_heredocText, hfront]
  dsimp only
  rw [hcontains, hlast, hindent, List.length_append, Nat.add_sub_cancel, List.take_left]
  cases indent with
  | nil => rfl
  | cons c indent => rfl

/-- The body of a heredoc is what its lines hold behind the indentation of the closing delimiter
exactly if there is no indentation, or there are lines and no blank follows a break within one. -/
theorem heredocBody_eq_lines_iff (mark : Char) (indent : List Char) (lines : List (List Char))
    (hindent : indent.all isIndent = true) :
    heredocBody (heredocText mark indent lines) = lines.flatMap (· ++ ['\n']) ↔
      indent = [] ∨ (lines ≠ [] ∧ ∀ line ∈ lines, HasNoInnerMargin line) := by
  cases lines with
  | nil =>
    rw [heredocBody_nil mark hindent]
    simp
  | cons line lines =>
    rw [heredocBody_cons mark hindent]
    by_cases hne : indent = []
    · rw [if_pos hne, hne]
      exact iff_of_true rfl (.inl rfl)
    · rw [if_neg hne]
      constructor
      · intro heq
        refine .inr ⟨List.cons_ne_nil _ _, fun other hmem => ?_⟩
        by_contra hmargin
        have hlt := (length_outdented_indentedLines hne hindent (line :: lines)).2
          ⟨other, hmem, hmargin⟩
        rw [heq] at hlt
        exact absurd hlt (Nat.lt_irrefl _)
      · rintro (hnil | ⟨-, hplain⟩)
        · exact absurd hnil hne
        · exact outdented_indentedLines hne hindent _ hplain

theorem heredocBody_eq_lines_mixedIndent :
    [' ', '\t'].all isIndent = true ∧
      heredocBody "\"\"\"\n \t  a\x0cb \r\n \t\n \t\"\"\"".toList = "  a\x0cb \r\n\n".toList := by
  refine ⟨by decide, ?_⟩
  exact (heredocBody_eq_lines_iff '"' [' ', '\t'] ["  a\x0cb \r".toList, []] (by decide)).mpr
    (by decide)

/-- A blank behind a form feed is lost, and the indentation of an empty heredoc is kept. -/
theorem heredocBody_changes_lines :
    heredocBody (heredocText '"' [' ', ' '] ["a\x0c  b".toList]) = "a\x0cb\n".toList ∧
      heredocBody (heredocText '"' [' ', ' '] []) = [' ', ' '] ∧
      ¬ ∀ (indent : List Char) (lines : List (List Char)), indent.all isIndent = true →
        (∀ line ∈ lines, '\n' ∉ line ∧ ¬ threeOf '"' <:+: line) →
        heredocBody (heredocText '"' indent lines) = lines.flatMap (· ++ ['\n']) := by
  refine ⟨by decide, by decide, fun h => ?_⟩
  exact absurd (h [' ', ' '] ["a\x0c  b".toList] (by decide) (by decide)) (by decide)

end LineScope.Grammar.Decode
