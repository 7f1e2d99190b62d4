import LineScope.Proofs.Diagnostic.ShownLine

/-!
# Failures in a report

A failure carries its own source, while a report keeps one source for each file: the one that came
with the first failure about the file.  So a report renders a failure like the failure itself
exactly if the two sources agree in the lines that are shown.
-/

namespace LineScope

open LineScope.Text

/-! ### What is shown of a source -/

namespace Diagnostic

/-- What is shown of a source around a line: the line above it, unless that is blank, and the line
itself. -/
def shownAround (source : String) (line : Int) : Option (List Char) × List Char :=
  ((lineAt? (shownLines source) (line - 2)).filter fun above => !isBlank above,
    (lineAt? (shownLines source) (line - 1)).getD [])

/-- The rows above the code of a diagnostic. -/
def frontRows (diagnostic : Diagnostic) (location : Location) : List (List Span) :=
  [diagnostic.headline,
    [gutterSpan (blanks diagnostic.numberWidth ++ "--> "), plainSpan location.text],
    [gutterSpan (blanks (diagnostic.numberWidth + 1) ++ "|")]]

/-- The rows of code of a diagnostic, with the pointer. -/
def codeRows (diagnostic : Diagnostic) (location : Location)
    (shown : Option (List Char) × List Char) : List (List Span) :=
  (shown.1.toList.map (codeLine diagnostic.numberWidth (location.line - 1))) ++
    [codeLine diagnostic.numberWidth location.line shown.2,
      [gutterSpan (blanks (diagnostic.numberWidth + 1) ++ "| "),
        ⟨some .pointer, diagnostic.pointer location shown.2⟩]]

theorem lineAbove_eq (width : Nat) (location : Location) (source : String) :
    lineAbove width location (shownLines source) =
      (shownAround source location.line).1.toList.map (codeLine width (location.line - 1)) := by
  unfold lineAbove shownAround
  cases lineAt? (shownLines source) (location.line - 2) with
  | none => rfl
  | some line =>
    dsimp only
    cases hblank : isBlank line <;> simp [hblank, Option.filter]

theorem codeRows_ne_nil (diagnostic : Diagnostic) (location : Location)
    (shown : Option (List Char) × List Char) : diagnostic.codeRows location shown ≠ [] := by
  simp [codeRows]

/-- With a known source, the layout depends on what is shown around the line. -/
theorem layout_of_source (diagnostic : Diagnostic) (location : Location) (sources : Sources)
    (source : String) (hlocation : diagnostic.location = some location)
    (hsource : sources.get? location.file = some source) :
    diagnostic.layout sources = diagnostic.frontRows location ++
      (diagnostic.codeRows location (shownAround source location.line) ++
        diagnostic.remarks diagnostic.numberWidth) := by
  simp only [layout, placeLines, hlocation, hsource, snippet, lineAbove_eq]
  simp [frontRows, codeRows, shownAround]

theorem feed_not_mem_shownLines (source : String) (line : List Char)
    (h : line ∈ shownLines source) : '\n' ∉ line := by
  obtain ⟨l, hl, rfl⟩ := List.mem_map.mp h
  intro hc
  have hbreak := not_break_displayLines source.toList l hl '\n' hc
  cases hbreak

/-- What is shown of a source: lines without line feeds, and one above only from the second line
on. -/
structure Displayed (number : Int) (shown : Option (List Char) × List Char) : Prop where
  line : '\n' ∉ shown.2
  above : ∀ line ∈ shown.1, '\n' ∉ line ∧ 2 ≤ number

theorem displayed_shownAround (source : String) (number : Int) :
    Displayed number (shownAround source number) where
  line := by
    show '\n' ∉ (lineAt? (shownLines source) (number - 1)).getD []
    cases hline : lineAt? (shownLines source) (number - 1) with
    | none => exact List.not_mem_nil
    | some line => exact feed_not_mem_shownLines source line (mem_of_lineAt? _ _ _ hline).2
  above := by
    intro line hline
    obtain ⟨hat, -⟩ := Option.filter_eq_some_iff.mp hline
    obtain ⟨hpos, hmem⟩ := mem_of_lineAt? _ _ _ hat
    exact ⟨feed_not_mem_shownLines source line hmem, by omega⟩

/-! ### Rows as text -/

/-- The gutter of a numbered row. -/
def numberGutter (width : Nat) (number : Int) : String :=
  rightAligned width (toString number) ++ " | "

theorem writeLine_codeLine (width : Nat) (number : Int) (line : List Char) :
    writeLine false (codeLine width number line) =
      numberGutter width number ++ String.ofList line := by
  simp [writeLine, codeLine, Span.write, gutterSpan, plainSpan, String.join, numberGutter]

theorem writeLines_append (color : Bool) (first second : List (List Span)) (hfirst : first ≠ [])
    (hsecond : second ≠ []) :
    writeLines color (first ++ second) =
      writeLines color first ++ "\n" ++ writeLines color second := by
  rw [writeLines, List.map_append, String.intercalate_append_of_ne_nil (by simpa using hfirst)
    (by simpa using hsecond)]
  rfl

theorem append_feed_inj (front other rest behind : List Char)
    (h : front ++ '\n' :: rest = other ++ '\n' :: behind) (hfront : '\n' ∉ front)
    (hother : '\n' ∉ other) : front = other ∧ rest = behind := by
  have hlines := congrArg feedLines h
  rw [feedLines_append front rest hfront, feedLines_append other behind hother] at hlines
  obtain rfl := (List.cons.inj hlines).1
  exact ⟨rfl, by simpa using h⟩

/-! ### Code that is read off its rows -/

theorem toString_pred_length (number : Nat) :
    (toString ((number - 1 : Nat) : Int)).length ≤ (toString (number : Int)).length := by
  simp only [← String.length_toList, toString_nat_digits]
  have hpos : 0 < (Nat.toDigits 10 number).length := List.length_pos_iff.mpr Nat.toDigits_ne_nil
  have hlt := (Nat.length_toDigits_le_iff (by omega) hpos).mp (Nat.le_refl _)
  exact (Nat.length_toDigits_le_iff (by omega) hpos).mpr (by omega)

theorem length_rightAligned (width : Nat) (text : String) (h : text.length ≤ width) :
    (rightAligned width text).toList.length = width := by
  simp only [rightAligned, blanks, String.toList_append, String.toList_ofList, List.length_append,
    List.length_replicate, String.length_toList]
  omega

/-- The row of a line cannot be taken for the row of the line above it. -/
theorem numberGutter_append_ne (number : Int) (hpos : 2 ≤ number) (rest behind : List Char) :
    (numberGutter (toString number).length (number - 1)).toList ++ rest ≠
      (numberGutter (toString number).length number).toList ++ behind := by
  intro h
  obtain ⟨n, rfl⟩ := Int.eq_ofNat_of_zero_le (show 0 ≤ number by omega)
  have hbefore : (n : Int) - 1 = ((n - 1 : Nat) : Int) := by omega
  rw [hbefore] at h
  have hgutter := (List.append_inj h (by
    simp only [numberGutter, String.toList_append, List.length_append,
      length_rightAligned _ _ (toString_pred_length n), length_rightAligned _ _ (Nat.le_refl _)])).1
  have hsame := number_of_gutter (n - 1) n _ _ (String.toList_inj.mp hgutter)
  omega

section CodeRows

variable (diagnostic : Diagnostic) (location : Location)

/-- The row of the pointer as text. -/
def pointerText (line : List Char) : String :=
  blanks (diagnostic.numberWidth + 1) ++ "| " ++ diagnostic.pointer location line

theorem toList_codeRows_none (line : List Char) :
    (writeLines false (diagnostic.codeRows location (none, line))).toList =
      (numberGutter diagnostic.numberWidth location.line).toList ++
        (line ++ '\n' :: (diagnostic.pointerText location line).toList) := by
  simp only [codeRows, writeLines, Option.toList_none, List.map_nil, List.nil_append, List.map_cons,
    String.intercalate_cons_cons, String.intercalate_singleton, writeLine_codeLine]
  simp [writeLine, Span.write, gutterSpan, String.join, pointerText]

theorem toList_codeRows_some (above line : List Char) :
    (writeLines false (diagnostic.codeRows location (some above, line))).toList =
      (numberGutter diagnostic.numberWidth (location.line - 1)).toList ++
        (above ++ '\n' :: (writeLines false (diagnostic.codeRows location (none, line))).toList) := by
  have hrows : diagnostic.codeRows location (some above, line) =
      [codeLine diagnostic.numberWidth (location.line - 1) above] ++
        diagnostic.codeRows location (none, line) := rfl
  rw [hrows, writeLines_append false _ _ (List.cons_ne_nil _ _)
    (diagnostic.codeRows_ne_nil location _)]
  simp [writeLines, writeLine_codeLine]

theorem line_of_codeRows (first second : List Char) (hfirst : '\n' ∉ first)
    (hsecond : '\n' ∉ second)
    (h : (writeLines false (diagnostic.codeRows location (none, first))).toList =
      (writeLines false (diagnostic.codeRows location (none, second))).toList) : first = second := by
  rw [toList_codeRows_none, toList_codeRows_none, List.append_cancel_left_eq] at h
  exact (append_feed_inj _ _ _ _ h hfirst hsecond).1

/-- What is shown of a source can be read off the rows of code. -/
theorem codeRows_injective (hlocation : diagnostic.location = some location)
    (shown other : Option (List Char) × List Char) (hshown : Displayed location.line shown)
    (hother : Displayed location.line other)
    (h : writeLines false (diagnostic.codeRows location shown) =
      writeLines false (diagnostic.codeRows location other)) : shown = other := by
  have hwidth : diagnostic.numberWidth = (toString location.line).length := by
    rw [numberWidth, hlocation]
  have htext := congrArg String.toList h
  obtain ⟨above, line⟩ := shown
  obtain ⟨above', line'⟩ := other
  cases above with
  | none =>
    cases above' with
    | none => rw [diagnostic.line_of_codeRows location line line' hshown.line hother.line htext]
    | some above' =>
      rw [toList_codeRows_none, toList_codeRows_some, hwidth] at htext
      exact absurd htext.symm (numberGutter_append_ne _ (hother.above above' rfl).2 _ _)
  | some above =>
    cases above' with
    | none =>
      rw [toList_codeRows_none, toList_codeRows_some, hwidth] at htext
      exact absurd htext (numberGutter_append_ne _ (hshown.above above rfl).2 _ _)
    | some above' =>
      rw [toList_codeRows_some, toList_codeRows_some, List.append_cancel_left_eq] at htext
      obtain ⟨rfl, hrest⟩ := append_feed_inj _ _ _ _ htext (hshown.above above rfl).1
        (hother.above above' rfl).1
      rw [diagnostic.line_of_codeRows location line line' hshown.line hother.line hrest]

end CodeRows

/-- Two sources give a diagnostic the same text exactly if the same is shown of them. -/
theorem render_eq_iff (diagnostic : Diagnostic) (location : Location) (first second : Sources)
    (source other : String) (hlocation : diagnostic.location = some location)
    (hsource : first.get? location.file = some source)
    (hother : second.get? location.file = some other) :
    diagnostic.render first false = diagnostic.render second false ↔
      shownAround source location.line = shownAround other location.line := by
  rw [render, render, diagnostic.layout_of_source location first source hlocation hsource,
    diagnostic.layout_of_source location second other hlocation hother]
  constructor
  · intro h
    have hne := diagnostic.codeRows_ne_nil location
    have hfront : diagnostic.frontRows location ≠ [] := List.cons_ne_nil _ _
    rw [writeLines_append false _ _ hfront (by simp [hne]),
      writeLines_append false _ _ hfront (by simp [hne]), String.append_right_inj] at h
    refine diagnostic.codeRows_injective location hlocation _ _ (displayed_shownAround _ _)
      (displayed_shownAround _ _) ?_
    by_cases hremarks : diagnostic.remarks diagnostic.numberWidth = []
    · simpa only [hremarks, List.append_nil] using h
    · rw [writeLines_append false _ _ (hne _) hremarks, writeLines_append false _ _ (hne _) hremarks,
        String.append_left_inj, String.append_left_inj] at h
      exact h
  · intro h
    rw [h]

end Diagnostic

/-! ### Reports of failures -/

/-- The source that a failure brings for a file. -/
def Failure.sourceFor? (failure : Failure) (file : String) : Option String :=
  failure.sources.get? file

namespace Report

/-- The report of several failures in order. -/
def ofFailures (failures : List Failure) : Report := failures.foldl addFailure (start .empty)

theorem diagnostics_foldl_addFailure (failures : List Failure) (report : Report) :
    (failures.foldl addFailure report).diagnostics =
      report.diagnostics ++ failures.map Failure.diagnostic := by
  induction failures generalizing report with
  | nil => simp
  | cons failure failures ih =>
    rw [List.foldl_cons, ih]
    simp [addFailure]

theorem get?_addFailure (report : Report) (failure : Failure) (file : String) :
    (report.addFailure failure).sources.get? file =
      (report.sources.get? file).or (failure.sourceFor? file) := by
  unfold addFailure Failure.sourceFor? Failure.sources
  cases failure.location with
  | none => simp [Table.get?_empty]
  | some location =>
    cases failure.sourceText with
    | none => simp [Table.get?_empty]
    | some text =>
      simp only [Table.get?_setDefault, Table.get?_set, Table.get?_empty]

/-- A report keeps the first source that a failure brings for a file. -/
theorem get?_foldl_addFailure (failures : List Failure) (report : Report) (file : String) :
    (failures.foldl addFailure report).sources.get? file =
      (report.sources.get? file).or (failures.findSome? (·.sourceFor? file)) := by
  induction failures generalizing report with
  | nil => simp
  | cons failure failures ih =>
    rw [List.foldl_cons, ih, get?_addFailure, List.findSome?_cons, Option.or_assoc]
    cases failure.sourceFor? file <;> rfl

theorem get?_ofFailures (failures : List Failure) (file : String) :
    (ofFailures failures).sources.get? file = failures.findSome? (·.sourceFor? file) := by
  rw [ofFailures, get?_foldl_addFailure]
  exact Option.none_or

/-- A report of failures holds their diagnostics in order.  It renders one of them like the failure
itself exactly if the same is shown of the failure's source as of the first source for its file. -/
theorem render_eq_text_iff (failures : List Failure) (failure : Failure) (location : Location)
    (source : String) (hmem : failure ∈ failures) (hrendered : failure.isRendered = true)
    (hlocation : failure.location = some location) (hsource : failure.sourceText = some source) :
    (ofFailures failures).diagnostics = failures.map Failure.diagnostic ∧
    ∃ first, failures.findSome? (·.sourceFor? location.file) = some first ∧
      ((ofFailures failures).render failure.diagnostic false = failure.text ↔
        Diagnostic.shownAround first location.line = Diagnostic.shownAround source location.line) := by
  refine ⟨by rw [ofFailures, diagnostics_foldl_addFailure]; rfl, ?_⟩
  have hown : failure.sourceFor? location.file = some source := by
    simp only [Failure.sourceFor?, Failure.sources, hlocation, hsource, Table.get?_set, if_true]
  have hsome : (failures.findSome? (·.sourceFor? location.file)).isSome = true :=
    List.findSome?_isSome_iff.mpr ⟨failure, hmem, by rw [hown]; rfl⟩
  obtain ⟨first, hfirst⟩ := Option.isSome_iff_exists.mp hsome
  refine ⟨first, hfirst, ?_⟩
  rw [render, Failure.text, if_pos hrendered, Failure.render]
  exact Diagnostic.render_eq_iff failure.diagnostic location _ _ first source hlocation
    (by rw [get?_ofFailures, hfirst]) hown

/-- A failure at a place of a source. -/
def failureAt (location : Location) (source : String) : Failure :=
  ⟨.source, "syntax error", some location, some syntaxErrorCode, some source, none, none, none⟩

/-- Failures about two versions of a file and about another file; the versions differ only behind
the line that the last failure is about. -/
def editedFile : List Failure :=
  [failureAt (.point "a.ex" 3 1) "def f\n  x = ]\nend", failureAt (.point "b.ex" 1 1) "]",
    failureAt (.point "a.ex" 2 7) "def f\n  x = ]\n"]

theorem render_eq_text_iff_editedFile :
    failureAt (.point "a.ex" 2 7) "def f\n  x = ]\n" ∈ editedFile ∧
    (ofFailures editedFile).render (failureAt (.point "a.ex" 2 7) "def f\n  x = ]\n").diagnostic
        false =
      (failureAt (.point "a.ex" 2 7) "def f\n  x = ]\n").text := by
  have hmem : failureAt (.point "a.ex" 2 7) "def f\n  x = ]\n" ∈ editedFile := by decide
  obtain ⟨-, first, hfirst, hiff⟩ := render_eq_text_iff editedFile _ _ _ hmem rfl rfl rfl
  obtain rfl : "def f\n  x = ]\nend" = first := Option.some.inj hfirst
  exact ⟨hmem, hiff.mpr (by decide +kernel)⟩

/-- Of two failures about texts without a file name, the second is shown with the text of the
first. -/
theorem render_shows_earlier_source :
    ¬ ∀ failures : List Failure,
      (∀ failure ∈ failures, failure.isRendered = true ∧ failure.location.isSome = true ∧
        failure.sourceText.isSome = true) →
      ∀ failure ∈ failures,
        (ofFailures failures).render failure.diagnostic false = failure.text := by
  intro h
  have hsame := h [failureAt (.point "nofile" 1 1) "]", failureAt (.point "nofile" 1 1) ")"]
    (by decide) (failureAt (.point "nofile" 1 1) ")") (by decide)
  exact absurd hsame (by decide +kernel)

end Report

end LineScope
