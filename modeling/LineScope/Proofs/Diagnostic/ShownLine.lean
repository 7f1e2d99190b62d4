import LineScope.Proofs.Analysis.FailureLine
import LineScope.Proofs.Text.DisplayLines

/-!
# The line that a diagnostic shows

A parse failure names a line of the source by counting line feeds, and its diagnostic shows the line of
that number among the display lines.  The two agree as long as no line up to there holds one of the
other breaks that end a display line; a line that holds one itself is not shown whole.
-/

namespace LineScope

open LineScope.Grammar LineScope.Text

/-! ### Numbered rows -/

namespace Diagnostic

theorem toString_nat_digits (n : Nat) : (toString (n : Int)).toList = Nat.toDigits 10 n := by
  show (toString n).toList = _
  rw [Nat.toString_eq_repr, Nat.toList_repr]

theorem dropWhile_blanks (width n : Nat) :
    (rightAligned width (toString (n : Int)) ++ " | ").toList.dropWhile (· == ' ') =
      Nat.toDigits 10 n ++ [' ', '|', ' '] := by
  have hhead : ∀ rest, (Nat.toDigits 10 n ++ rest).dropWhile (· == ' ') =
      Nat.toDigits 10 n ++ rest := by
    intro rest
    cases hdigits : Nat.toDigits 10 n with
    | nil => exact absurd hdigits Nat.toDigits_ne_nil
    | cons c cs =>
      have hc : c.isDigit = true :=
        Nat.isDigit_of_mem_toDigits (by omega) (by omega) (hdigits ▸ List.mem_cons_self)
      have hne : (c == ' ') = false := by
        rw [beq_eq_false_iff_ne]
        rintro rfl
        exact absurd hc (by decide)
      rw [List.cons_append, List.dropWhile_cons, hne]
      rfl
  simp only [rightAligned, blanks, String.toList_append, String.toList_ofList, toString_nat_digits,
    List.append_assoc]
  rw [List.dropWhile_append_of_pos]
  · exact hhead _
  · intro c hc
    rw [List.eq_of_mem_replicate hc]
    rfl

/-- The number in a gutter can be read off it. -/
theorem number_of_gutter (first second width other : Nat)
    (h : rightAligned width (toString (first : Int)) ++ " | " =
      rightAligned other (toString (second : Int)) ++ " | ") : first = second := by
  have hdigits := congrArg (fun s : String => s.toList.dropWhile (· == ' ')) h
  simp only [dropWhile_blanks, List.append_cancel_right_eq] at hdigits
  have hvalue := congrArg (fun digits => Nat.ofDigitChars 10 digits 0) hdigits
  simpa only [Nat.ofDigitChars_ten_toDigits] using hvalue

/-- A row whose gutter shows a number, with the text next to it. -/
def NumbersRow (number : Nat) (shown : List Char) (row : List Span) : Prop :=
  ∃ width, row = codeLine width number shown

/-- Of the lines of a diagnostic, one shows a number in its gutter, and a text next to it. -/
def ShowsLine (diagnostic : Diagnostic) (sources : Sources) (number : Nat) (shown : List Char) :
    Prop :=
  (∃ row ∈ diagnostic.layout sources, NumbersRow number shown row) ∧
    ∀ row ∈ diagnostic.layout sources, ∀ other, NumbersRow number other row → other = shown

section Rows

variable (diagnostic : Diagnostic) (location : Location) (number : Nat)

theorem not_numbersRow_headline (shown : List Char) :
    ¬ NumbersRow number shown diagnostic.headline := by
  rintro ⟨width, h⟩
  simp [headline, codeLine, gutterSpan] at h

theorem not_numbersRow_place (width : Nat) (place : String) (shown : List Char) :
    ¬ NumbersRow number shown [gutterSpan (blanks width ++ "--> "), plainSpan place] := by
  rintro ⟨other, h⟩
  simp only [codeLine, gutterSpan, List.cons.injEq, Span.mk.injEq, true_and] at h
  have hlast := congrArg (fun s : String => s.toList.reverse.drop 1) h.1
  simp [String.toList_append] at hlast

theorem not_numbersRow_remark (width : Nat) (row : List Span) (h : row ∈ diagnostic.remarks width)
    (shown : List Char) : ¬ NumbersRow number shown row := by
  rintro ⟨other, rfl⟩
  have hlength : ∀ row ∈ diagnostic.remarks width, row.length ≠ 2 := by
    intro row hrow
    simp only [remarks] at hrow
    split at hrow
    · cases hrow
    · simp only [List.mem_cons, List.mem_append, List.mem_map] at hrow
      rcases hrow with rfl | ⟨_, _, rfl⟩ | ⟨_, _, rfl⟩ <;> simp
  exact hlength _ h rfl

theorem not_numbersRow_lineAbove (lines : List (List Char)) (width : Nat) (row : List Span)
    (hline : location.line = number) (h : row ∈ lineAbove width location lines)
    (shown : List Char) : ¬ NumbersRow number shown row := by
  rintro ⟨other, rfl⟩
  unfold lineAbove at h
  split at h
  · rename_i line hfound
    have hpos : 2 ≤ number := by
      unfold lineAt? at hfound
      split at hfound
      · cases hfound
      · omega
    split at h
    · cases h
    · have hrow := List.mem_singleton.mp h
      have hbefore : location.line - 1 = ((number - 1 : Nat) : Int) := by omega
      simp only [codeLine, gutterSpan, List.cons.injEq, Span.mk.injEq, true_and, hbefore] at hrow
      have hsame := number_of_gutter number (number - 1) other width hrow.1
      omega
  · cases h

/-- The row of the line that a diagnostic is about shows the display line of that number. -/
theorem showsLine_of_source (sources : Sources) (source : String)
    (hlocation : diagnostic.location = some location) (hline : location.line = number)
    (hsource : sources.get? location.file = some source) (hpos : 1 ≤ number) :
    diagnostic.ShowsLine sources number
      (((displayLines source.toList).map (·.text))[number - 1]?.getD []) := by
  obtain ⟨shown, hshown⟩ : ∃ shown, shown =
    ((displayLines source.toList).map (·.text))[number - 1]?.getD [] := ⟨_, rfl⟩
  have hat : (lineAt? (shownLines source) (location.line - 1)).getD [] = shown := by
    have hindex : location.line - 1 = ((number - 1 : Nat) : Int) := by omega
    rw [lineAt?, hindex, if_neg (by omega), hshown]
    rfl
  have hlayout : diagnostic.layout sources =
      [diagnostic.headline,
        [gutterSpan (blanks diagnostic.numberWidth ++ "--> "), plainSpan location.text],
        [gutterSpan (blanks (diagnostic.numberWidth + 1) ++ "|")]] ++
      lineAbove diagnostic.numberWidth location (shownLines source) ++
      [codeLine diagnostic.numberWidth number shown,
        [gutterSpan (blanks (diagnostic.numberWidth + 1) ++ "| "),
          ⟨some .pointer, diagnostic.pointer location shown⟩]] ++
      diagnostic.remarks diagnostic.numberWidth := by
    simp only [layout, placeLines, hlocation, hsource, snippet, hat]
    simp [hline]
  rw [ShowsLine, hlayout, ← hshown]
  refine ⟨⟨codeLine diagnostic.numberWidth number shown, by simp, _, rfl⟩, ?_⟩
  intro row hrow other hother
  simp only [List.mem_append, List.mem_cons, List.not_mem_nil, or_false] at hrow
  rcases hrow with (((rfl | rfl | rfl) | habove) | rfl | rfl) | hremark
  · exact absurd hother (not_numbersRow_headline diagnostic number other)
  · exact absurd hother (not_numbersRow_place number _ _ other)
  · obtain ⟨_, h⟩ := hother
    simp [codeLine] at h
  · exact absurd hother (not_numbersRow_lineAbove location number _ _ row hline habove other)
  · obtain ⟨_, h⟩ := hother
    simp only [codeLine, List.cons.injEq, plainSpan, Span.mk.injEq, true_and, and_true] at h
    exact (String.ofList_injective h.2).symm
  · obtain ⟨_, h⟩ := hother
    simp [codeLine, plainSpan] at h
  · exact absurd hother (not_numbersRow_remark diagnostic number _ row hremark other)

end Rows

end Diagnostic

/-! ### Parse failures -/

theorem parse_location (source file : String) (failure : Failure) (location : Location)
    (h : (parse source file).value = .error failure) (hlocation : failure.location = some location) :
    failure.sourceText = some source ∧
      ∃ line : Nat, location.line = line ∧ 1 ≤ line ∧ line ≤ lineCount source.toList := by
  unfold parse at h
  dsimp only at h
  split at h
  · rename_i nodes c hcomplete
    split at h
    · cases h
    · rename_i fault hfault
      cases h
      cases hlocation
      have hmem := List.mem_of_find?_eq_some hcomplete
      exact ⟨rfl, fault.line, rfl, (readProgram_reports source.toList _ hmem).2 fault hfault⟩
  · split at h
    · cases h
      cases hlocation
      refine ⟨rfl, (source.toList.take (errorPosition source.toList
        (readProgram source.toList).reach)).count '\n' + 1, rfl, ?_⟩
      have hle : (source.toList.take (errorPosition source.toList
          (readProgram source.toList).reach)).count '\n' ≤ source.toList.count '\n' :=
        (List.take_sublist _ _).count_le _
      rw [lineCount]
      omega
    · cases h
      unfold unexpectedEnd at hlocation ⊢
      split at hlocation
      · cases hlocation
      · rename_i word line hopener
        cases hlocation
        obtain ⟨-, hbounds⟩ := unclosedOpener_bounds source.toList word line hopener
        exact ⟨rfl, line, rfl, hbounds⟩

theorem parse_showsDisplayLine (source file : String) (failure : Failure) (location : Location)
    (line : Nat) (h : (parse source file).value = .error failure)
    (hlocation : failure.location = some location) (hline : location.line = line) (hpos : 1 ≤ line) :
    failure.diagnostic.ShowsLine failure.sources line
      (((displayLines source.toList).map (·.text))[line - 1]?.getD []) := by
  obtain ⟨hsource, -⟩ := parse_location source file failure location h hlocation
  have hsources : failure.sources.get? location.file = some source := by
    simp only [Failure.sources, hlocation, hsource]
    rw [Table.get?_set, if_pos rfl]
  exact Diagnostic.showsLine_of_source failure.diagnostic location line failure.sources source
    hlocation hline hsources hpos

/-- A source line that no line break other than its own cuts. -/
def Unbroken (line : List Char) : Prop := ∀ c ∈ line, isLineBreak c = false

instance (line : List Char) : Decidable (Unbroken line) :=
  decidable_of_iff (line.any isLineBreak = false) (by simp [Unbroken])

/-- The diagnostic of a parse failure with a place has one row with the number of its line.  The row
shows this line of the source if no source line up to it is broken; it never shows a broken line. -/
theorem parse_showsLine (source file : String) (failure : Failure) (location : Location)
    (h : (parse source file).value = .error failure) (hlocation : failure.location = some location) :
    ∃ (line : Nat) (text shown : List Char), location.line = line ∧ 1 ≤ line ∧
      (sourceLines source.toList)[line - 1]? = some text ∧
      failure.diagnostic.ShowsLine failure.sources line shown ∧
      ((∀ earlier ∈ (sourceLines source.toList).take line, Unbroken earlier) → shown = text) ∧
      (¬ Unbroken text → shown ≠ text) := by
  obtain ⟨-, line, hline, hpos, hle⟩ := parse_location source file failure location h hlocation
  have hlength : line - 1 < (sourceLines source.toList).length := by
    rw [length_sourceLines]
    omega
  have htext := List.getElem?_eq_getElem hlength
  have hshows := parse_showsDisplayLine source file failure location line h hlocation hline hpos
  refine ⟨line, _, _, hline, hpos, htext, hshows, fun hearlier => ?_, fun hbroken hsame => hbroken ?_⟩
  · refine displayLine_eq_sourceLine source.toList _ (line - 1) htext ?_
    rw [Nat.sub_add_cancel hpos]
    exact hearlier
  · intro c hc
    rw [← hsame] at hc
    cases hshown : ((displayLines source.toList).map (·.text))[line - 1]? with
    | none =>
      rw [hshown] at hc
      cases hc
    | some shown =>
      rw [hshown] at hc
      obtain ⟨l, hl, rfl⟩ := List.mem_map.mp (List.mem_of_getElem? hshown)
      exact not_break_displayLines source.toList l hl c hc

theorem exists_failure_at (source : String) (location : Location)
    (h : (match (parse source defaultFile).value with
      | .error failure => failure.location
      | .ok _ => none) = some location) :
    ∃ failure, (parse source defaultFile).value = .error failure ∧
      failure.location = some location := by
  cases hparse : (parse source defaultFile).value with
  | ok node =>
    rw [hparse] at h
    cases h
  | error failure =>
    rw [hparse] at h
    exact ⟨failure, rfl, h⟩

/-- A stray bracket on the second line, behind a carriage return and a line feed. -/
def bracketBelow : String := "a\r\n]"

theorem parse_showsLine_bracketBelow :
    ∃ failure, (parse bracketBelow defaultFile).value = .error failure ∧
      failure.location = some (.point defaultFile 2 1) ∧
      failure.diagnostic.ShowsLine failure.sources 2 [']'] := by
  obtain ⟨failure, hparse, hplace⟩ :=
    exists_failure_at bracketBelow (.point defaultFile 2 1) (by decide +kernel)
  obtain ⟨line, text, shown, hline, -, htext, hshows, hunbroken, -⟩ :=
    parse_showsLine bracketBelow defaultFile failure _ hparse hplace
  obtain rfl : 2 = line := Int.ofNat.inj hline
  obtain rfl : [']'] = text := Option.some.inj htext
  obtain rfl := hunbroken (by decide)
  exact ⟨failure, hparse, hplace, hshows⟩

/-- A page break, at which only the display lines are cut, and a stray bracket on the next line. -/
def pageBreak : String := "a\x0c\n]"

/-- The bracket is on the second source line, and the row of line two shows nothing. -/
theorem parse_shows_other_line :
    ∃ failure, (parse pageBreak defaultFile).value = .error failure ∧
      failure.location = some (.point defaultFile 2 1) ∧
      (sourceLines pageBreak.toList)[1]? = some [']'] ∧
      failure.diagnostic.ShowsLine failure.sources 2 [] := by
  obtain ⟨failure, hparse, hplace⟩ :=
    exists_failure_at pageBreak (.point defaultFile 2 1) (by decide +kernel)
  exact ⟨failure, hparse, hplace, by decide,
    parse_showsDisplayLine pageBreak defaultFile failure _ 2 hparse hplace rfl (by decide)⟩

end LineScope
