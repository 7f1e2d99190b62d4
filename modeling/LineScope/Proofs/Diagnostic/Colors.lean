import LineScope.Diagnostic.Failure
import LineScope.Proofs.Number.Integer
import LineScope.Proofs.Text.DisplayLines
import Mathlib.Data.List.Forall2

/-!
# Colours

Diagnostics are written with colours or without.  Deleting the colour sequences from what is written
with colours gives what is written without, as long as the texts of the diagnostics and the sources
hold no escape character of their own.
-/

namespace LineScope

open LineScope.Text LineScope.Number

/-! ### Colour sequences -/

/-- A character among the parameters of a colour sequence. -/
def isColorParameter (c : Char) : Bool := c.isDigit || c == ';'

/-- The width of the colour sequence at the front of a text: an escape character, a bracket, digits
and semicolons, and the letter `m`. -/
def colorSequenceWidth : List Char → Option Nat
  | '\x1b' :: '[' :: cs =>
    let parameters := (cs.takeWhile isColorParameter).length
    if cs[parameters]? = some 'm' then some (parameters + 3) else none
  | _ => none

/-- A text without its colour sequences; the first `hidden` characters belong to one of them. -/
def deleteColors : (hidden : Nat) → List Char → List Char
  | _, [] => []
  | hidden + 1, _ :: cs => deleteColors hidden cs
  | 0, c :: cs =>
    match colorSequenceWidth (c :: cs) with
    | none => c :: deleteColors 0 cs
    | some width => deleteColors (width - 1) cs

/-- A text without its colour sequences. -/
def uncolored (text : String) : String := String.ofList (deleteColors 0 text.toList)

/-- A text that holds no escape character. -/
def EscapeFree (text : String) : Prop := '\x1b' ∉ text.toList

instance (text : String) : Decidable (EscapeFree text) :=
  inferInstanceAs (Decidable (_ ∉ _))

@[simp]
theorem escapeFree_append (first second : String) :
    EscapeFree (first ++ second) ↔ EscapeFree first ∧ EscapeFree second := by
  simp [EscapeFree]

@[simp]
theorem escapeFree_ofList (cs : List Char) : EscapeFree (String.ofList cs) ↔ '\x1b' ∉ cs := by
  simp [EscapeFree]

@[simp]
theorem escapeFree_repr (value : Int) : EscapeFree value.repr :=
  fun h => absurd (isIntegral_of_mem_toString value h) (by decide)

@[simp]
theorem escapeFree_repr_nat (n : Nat) : EscapeFree n.repr := escapeFree_repr n

@[simp]
theorem escapeFree_replicate (n : Nat) (c : Char) (h : c ≠ '\x1b') :
    EscapeFree (String.ofList (List.replicate n c)) := by
  rw [escapeFree_ofList, List.mem_replicate]
  exact fun hc => h hc.2.symm

theorem colorSequenceWidth_of_ne (c : Char) (cs : List Char) (h : c ≠ '\x1b') :
    colorSequenceWidth (c :: cs) = none := by
  unfold colorSequenceWidth
  split
  · rename_i heq
    cases heq
    exact absurd rfl h
  · rfl

theorem deleteColors_append (front rest : List Char) (h : '\x1b' ∉ front) :
    deleteColors 0 (front ++ rest) = front ++ deleteColors 0 rest := by
  induction front with
  | nil => rfl
  | cons c front ih =>
    obtain ⟨hc, hfront⟩ := (by simpa using h : ¬ '\x1b' = c ∧ '\x1b' ∉ front)
    rw [List.cons_append, deleteColors, colorSequenceWidth_of_ne c _ (Ne.symm hc), ih hfront]
    rfl

/-! ### Texts with colours and without -/

/-- A text with colours and one without them: in front of any text, deleting the colour sequences of
the one leaves the other. -/
def Uncolors (colored plain : String) : Prop :=
  ∀ rest, deleteColors 0 (colored.toList ++ rest) = plain.toList ++ deleteColors 0 rest

namespace Uncolors

theorem uncolored_eq {colored plain : String} (h : Uncolors colored plain) :
    uncolored colored = plain := by
  have hall := h []
  rw [List.append_nil] at hall
  rw [uncolored, hall]
  simp [deleteColors]

theorem refl (text : String) (h : EscapeFree text) : Uncolors text text :=
  fun rest => deleteColors_append text.toList rest h

theorem append {first second third fourth : String} (h : Uncolors first second)
    (h' : Uncolors third fourth) : Uncolors (first ++ third) (second ++ fourth) := by
  intro rest
  rw [String.toList_append, String.toList_append, List.append_assoc, h, h', List.append_assoc]

theorem codes (role : Role) : Uncolors role.codes "" := by
  intro rest
  cases role <;> rfl

theorem reset : Uncolors colorReset "" := fun _ => rfl

theorem join {colored plain : List String} (h : List.Forall₂ Uncolors colored plain) :
    Uncolors (String.join colored) (String.join plain) := by
  induction h with
  | nil => exact refl "" (by decide)
  | cons hfirst _ ih =>
    rw [String.join_cons, String.join_cons]
    exact hfirst.append ih

theorem intercalate {colored plain : List String} (separator : String)
    (hseparator : EscapeFree separator) (h : List.Forall₂ Uncolors colored plain) :
    Uncolors (String.intercalate separator colored) (String.intercalate separator plain) := by
  induction h with
  | nil => exact refl "" (by decide)
  | cons hfirst hrest ih =>
    cases hrest with
    | nil =>
      rw [String.intercalate_singleton, String.intercalate_singleton]
      exact hfirst
    | cons hsecond hrest =>
      rw [String.intercalate_cons_cons, String.intercalate_cons_cons]
      exact (hfirst.append (refl separator hseparator)).append ih

end Uncolors

/-- A span is written with the codes of its part around it, unless it is empty. -/
theorem Span.uncolors_write (span : Span) (h : EscapeFree span.text) :
    Uncolors (span.write true) (span.write false) := by
  have htext := Uncolors.refl span.text h
  unfold Span.write
  cases span.role with
  | none => exact htext
  | some role =>
    dsimp only
    split
    · have hcodes := ((Uncolors.codes role).append htext).append Uncolors.reset
      simpa using hcodes
    · exact htext

/-- Every span of a line is free of escape characters. -/
def EscapeFreeLine (line : List Span) : Prop := ∀ span ∈ line, EscapeFree span.text

@[simp]
theorem escapeFreeLine_nil : EscapeFreeLine [] := nofun

@[simp]
theorem escapeFreeLine_cons (span : Span) (line : List Span) :
    EscapeFreeLine (span :: line) ↔ EscapeFree span.text ∧ EscapeFreeLine line :=
  List.forall_mem_cons

theorem uncolors_writeLine (line : List Span) (h : EscapeFreeLine line) :
    Uncolors (writeLine true line) (writeLine false line) := by
  refine Uncolors.join ?_
  rw [List.forall₂_map_left_iff, List.forall₂_map_right_iff, List.forall₂_same]
  exact fun span hspan => span.uncolors_write (h span hspan)

theorem uncolors_writeLines (lines : List (List Span)) (h : ∀ line ∈ lines, EscapeFreeLine line) :
    Uncolors (writeLines true lines) (writeLines false lines) := by
  refine Uncolors.intercalate "\n" (by decide) ?_
  rw [List.forall₂_map_left_iff, List.forall₂_map_right_iff, List.forall₂_same]
  exact fun line hline => uncolors_writeLine line (h line hline)

/-! ### The texts of a diagnostic -/

namespace Diagnostic

/-- The texts that a diagnostic may lack. -/
def optionalTexts (diagnostic : Diagnostic) : List (Option String) :=
  [diagnostic.code, diagnostic.help, diagnostic.note, diagnostic.label]

/-- The texts that a diagnostic brings with it. -/
def texts (diagnostic : Diagnostic) : List String :=
  diagnostic.message :: (diagnostic.location.toList.map (·.file) ++
    diagnostic.optionalTexts.flatMap Option.toList)

theorem mem_texts_of_nonEmpty? (diagnostic : Diagnostic) (field : Option String) (text : String)
    (hfield : field ∈ diagnostic.optionalTexts) (h : nonEmpty? field = some text) :
    text ∈ diagnostic.texts := by
  obtain ⟨hsome, -⟩ := Option.filter_eq_some_iff.mp h
  refine List.mem_cons_of_mem _ (List.mem_append_right _ (List.mem_flatMap.mpr ⟨field, hfield, ?_⟩))
  rw [hsome]
  exact List.mem_singleton_self text

/-- The lines that are shown of a source free of escape characters are free of them. -/
theorem not_mem_shownLines (source : String) (h : EscapeFree source) :
    ∀ line ∈ shownLines source, '\x1b' ∉ line := by
  intro line hline hc
  obtain ⟨l, hl, rfl⟩ := List.mem_map.mp hline
  exact h (mem_of_mem_displayLines source.toList l hl _ hc)

end Diagnostic

/-! ### The layout of a diagnostic -/

@[simp]
theorem escapeFree_blanks (n : Nat) : EscapeFree (blanks n) := escapeFree_replicate n ' ' (by decide)

@[simp]
theorem escapeFree_rightAligned (width : Nat) (text : String) :
    EscapeFree (rightAligned width text) ↔ EscapeFree text := by
  simp [rightAligned]

namespace Diagnostic

theorem escapeFree_codeLine (width : Nat) (number : Int) (line : List Char) (h : '\x1b' ∉ line) :
    EscapeFreeLine (codeLine width number line) := by
  have hbar : EscapeFree " | " := by decide
  simp [codeLine, gutterSpan, plainSpan, hbar, h]

section Layout

variable (diagnostic : Diagnostic) (h : ∀ text ∈ diagnostic.texts, EscapeFree text)

include h

theorem escapeFree_headline : EscapeFreeLine diagnostic.headline := by
  have hmessage : EscapeFree diagnostic.message := h _ List.mem_cons_self
  have hcolon : EscapeFree ": " := by decide
  have hopening : EscapeFree "error[" ∧ EscapeFree "]" ∧ EscapeFree "error" := by decide
  unfold headline
  dsimp only
  split
  · rename_i code hcode
    have hfree := h code (diagnostic.mem_texts_of_nonEmpty? _ code (by simp [optionalTexts]) hcode)
    simp [hmessage, hcolon, hopening, hfree]
  · simp [hmessage, hcolon, hopening]

theorem escapeFree_locationText (location : Location)
    (hlocation : diagnostic.location = some location) : EscapeFree location.text := by
  have hfile : EscapeFree location.file := h _ (by simp [texts, hlocation])
  have hcolon : EscapeFree ":" := by decide
  simp [Location.text, hfile, hcolon]

theorem escapeFree_pointer (location : Location) (line : List Char) :
    EscapeFree (diagnostic.pointer location line) := by
  have hblank : EscapeFree " " := by decide
  unfold pointer
  dsimp only
  split
  · rename_i label hlabel
    have hfree := h label
      (diagnostic.mem_texts_of_nonEmpty? _ label (by simp [optionalTexts]) hlabel)
    simp [hblank, hfree]
  · simp

theorem escapeFree_snippet (location : Location) (width : Nat) (lines : List (List Char))
    (hlines : ∀ line ∈ lines, '\x1b' ∉ line) :
    ∀ row ∈ diagnostic.snippet location width lines, EscapeFreeLine row := by
  have hbar : EscapeFree "|" ∧ EscapeFree "| " := by decide
  have hline : '\x1b' ∉ (lineAt? lines (location.line - 1)).getD [] := by
    cases hat : lineAt? lines (location.line - 1) with
    | none => exact List.not_mem_nil
    | some line => exact hlines line (mem_of_lineAt? lines _ line hat).2
  have habove : ∀ row ∈ lineAbove width location lines, EscapeFreeLine row := by
    intro row hrow
    unfold lineAbove at hrow
    split at hrow
    · rename_i line hat
      split at hrow
      · cases hrow
      · rw [List.mem_singleton.mp hrow]
        exact escapeFree_codeLine width _ line (hlines line (mem_of_lineAt? lines _ line hat).2)
    · cases hrow
  intro row hrow
  simp only [snippet, List.mem_append, List.mem_cons, List.not_mem_nil, or_false] at hrow
  rcases hrow with (rfl | hrow) | rfl | rfl
  · simp [gutterSpan, hbar]
  · exact habove row hrow
  · exact escapeFree_codeLine width _ _ hline
  · simp [gutterSpan, hbar, diagnostic.escapeFree_pointer h location]

theorem escapeFree_remarks (width : Nat) :
    ∀ row ∈ diagnostic.remarks width, EscapeFreeLine row := by
  have hmarks : EscapeFree "|" ∧ EscapeFree "= " ∧ EscapeFree "help: " ∧
      EscapeFree "note: " := by decide
  have hhelp : ∀ text ∈ nonEmpty? diagnostic.help, EscapeFree text := fun text htext =>
    h text (diagnostic.mem_texts_of_nonEmpty? _ text (by simp [optionalTexts]) htext)
  have hnote : ∀ text ∈ nonEmpty? diagnostic.note, EscapeFree text := fun text htext =>
    h text (diagnostic.mem_texts_of_nonEmpty? _ text (by simp [optionalTexts]) htext)
  intro row hrow
  simp only [remarks] at hrow
  split at hrow
  · cases hrow
  · simp only [List.mem_cons, List.mem_append, List.mem_map, Option.mem_toList] at hrow
    rcases hrow with rfl | ⟨text, htext, rfl⟩ | ⟨text, htext, rfl⟩
    · simp [gutterSpan, hmarks]
    · simp [plainSpan, hmarks, hhelp text htext]
    · simp [plainSpan, hmarks, hnote text htext]

theorem escapeFree_layout (sources : Sources)
    (hsources : ∀ entry ∈ sources.entries, EscapeFree entry.2) :
    ∀ row ∈ diagnostic.layout sources, EscapeFreeLine row := by
  have harrow : EscapeFree " --> " ∧ EscapeFree "--> " ∧ EscapeFree "<unknown location>" := by
    decide
  have hplace : ∀ row ∈ diagnostic.placeLines sources, EscapeFreeLine row := by
    intro row hrow
    unfold placeLines at hrow
    split at hrow
    · rw [List.mem_singleton.mp hrow]
      simp [gutterSpan, plainSpan, harrow]
    · rename_i location hlocation
      have htext := diagnostic.escapeFree_locationText h location hlocation
      split at hrow
      · rw [List.mem_singleton.mp hrow]
        simp [gutterSpan, plainSpan, harrow, htext]
      · rename_i source hsource
        obtain ⟨entry, hentry, rfl⟩ := Option.map_eq_some_iff.mp hsource
        have hfree := hsources entry (List.mem_of_find?_eq_some hentry)
        rcases List.mem_cons.mp hrow with rfl | hrow
        · simp [gutterSpan, plainSpan, harrow, htext]
        · exact diagnostic.escapeFree_snippet h location _ _ (not_mem_shownLines _ hfree) row hrow
  intro row hrow
  simp only [layout, List.cons_append, List.mem_cons, List.mem_append] at hrow
  rcases hrow with rfl | hrow | hrow
  · exact diagnostic.escapeFree_headline h
  · exact hplace row hrow
  · exact diagnostic.escapeFree_remarks h _ row hrow

theorem uncolors_render (sources : Sources)
    (hsources : ∀ entry ∈ sources.entries, EscapeFree entry.2) :
    Uncolors (diagnostic.render sources true) (diagnostic.render sources false) :=
  uncolors_writeLines _ (diagnostic.escapeFree_layout h sources hsources)

end Layout

end Diagnostic

/-! ### Reports -/

namespace Report

theorem escapeFree_summary (count : Nat) : EscapeFreeLine (summary count) := by
  have htexts : EscapeFree "error" ∧ EscapeFree ": analysis aborted due to " ∧
      EscapeFree " previous error" ∧ EscapeFree "" ∧ EscapeFree "s" := by decide
  have hplural : EscapeFree (if count = 1 then "" else "s") := by
    split
    · exact htexts.2.2.2.1
    · exact htexts.2.2.2.2
  simp [summary, htexts, hplural]

/-- Colours only add colour sequences: deleting these from a diagnostic, or from a whole report,
that is written with colours gives what is written without. -/
theorem uncolored_render (report : Report)
    (hsources : ∀ entry ∈ report.sources.entries, EscapeFree entry.2)
    (hreported : ∀ diagnostic ∈ report.diagnostics, ∀ text ∈ diagnostic.texts, EscapeFree text) :
    (∀ diagnostic : Diagnostic, (∀ text ∈ diagnostic.texts, EscapeFree text) →
      uncolored (report.render diagnostic true) = report.render diagnostic false) ∧
    uncolored (report.renderAll true) = report.renderAll false := by
  refine ⟨fun diagnostic h => (diagnostic.uncolors_render h _ hsources).uncolored_eq, ?_⟩
  refine Uncolors.uncolored_eq (Uncolors.intercalate "\n\n" (by decide) ?_)
  refine List.rel_append ?_ (.cons (uncolors_writeLine _ (escapeFree_summary _)) .nil)
  rw [List.forall₂_map_left_iff, List.forall₂_map_right_iff, List.forall₂_same]
  exact fun diagnostic hd => diagnostic.uncolors_render (hreported diagnostic hd) _ hsources

/-- A diagnostic with all its fields. -/
def strayBracket : Diagnostic :=
  ⟨"syntax error before: ]", some (.point "a.ex" 2 5), some "E0001", some "mask the line",
    some "brackets come in pairs", some "unexpected token"⟩

/-- A report about a known source, an unknown one and no source. -/
def mixedReport : Report :=
  ⟨⟨[("a.ex", "def f do\n  x ]\nend")]⟩,
    [strayBracket, ⟨"oops", some (.point "b.ex" 1 1), none, none, some "", none⟩,
      ⟨"failed", none, some "E0004", some "try again", none, none⟩]⟩

theorem uncolored_render_mixedReport :
    (∀ entry ∈ mixedReport.sources.entries, EscapeFree entry.2) ∧
    (∀ diagnostic ∈ mixedReport.diagnostics, ∀ text ∈ diagnostic.texts, EscapeFree text) ∧
    mixedReport.renderAll true ≠ mixedReport.renderAll false ∧
    uncolored (mixedReport.render strayBracket true) = mixedReport.render strayBracket false ∧
    uncolored (mixedReport.renderAll true) = mixedReport.renderAll false := by
  have hsources : ∀ entry ∈ mixedReport.sources.entries, EscapeFree entry.2 := by decide
  have hreported : ∀ diagnostic ∈ mixedReport.diagnostics, ∀ text ∈ diagnostic.texts,
      EscapeFree text := by decide
  obtain ⟨hone, hall⟩ := uncolored_render mixedReport hsources hreported
  exact ⟨hsources, hreported, by decide +kernel,
    hone strayBracket (hreported strayBracket List.mem_cons_self), hall⟩

end Report

end LineScope
