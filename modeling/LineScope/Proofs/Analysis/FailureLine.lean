import LineScope.Analysis.Source
import LineScope.Proofs.Grammar.Opener
import LineScope.Proofs.Grammar.Steady
import LineScope.Proofs.Number.Integer
import LineScope.Proofs.Text.Lines

/-!
# The lines of parse failures

A parse failure points at a line of the source, or at none.  For a token without a value the line
comes from the cursor in front of the token; for an unclosed block it is read back from the message.
-/

namespace LineScope.Grammar

open LineScope.Number LineScope.Text

/-! ### Tokens without a value -/

/-- A cursor in a source whose fault, if there is one, is on a line of the source. -/
def Cursor.Reports (source : List Char) (c : Cursor) : Prop :=
  c.In source ∧ ∀ fault, c.fault = some fault → 1 ≤ fault.line ∧ fault.line ≤ lineCount source

theorem Cursor.In.line_bounds (source : List Char) (c : Cursor) (h : c.In source) :
    1 ≤ c.line ∧ c.line ≤ lineCount source := by
  have hle : (source.take c.offset).count '\n' ≤ source.count '\n' :=
    (List.take_sublist _ _).count_le _
  rw [h.line_eq, lineCount]
  omega

theorem Cursor.fault_advance (n : Nat) (c : Cursor) : (c.advance n).fault = c.fault := by
  induction n generalizing c with
  | zero => rfl
  | succ n ih =>
    rw [advance, ih]
    unfold next
    split <;> rfl

theorem Cursor.Reports.advance (source : List Char) (n : Nat) (c : Cursor) (h : c.Reports source) :
    (c.advance n).Reports source :=
  ⟨advance_in source n c h.1, by rw [fault_advance]; exact h.2⟩

theorem steady_reports (source : List Char) :
    Steady (Cursor.Reports source) fun found => 1 ≤ found.line ∧ found.line ≤ lineCount source where
  token terminal := by
    intro c hc way hw
    unfold Rule.token at hw
    split at hw
    · cases hw
    · rw [List.mem_singleton.mp hw]
      exact ⟨(hc.advance source _ c).advance source _ _, Cursor.In.line_bounds source c hc.1⟩
  report found kind error hfound := by
    intro c hc way hw
    rw [List.mem_singleton.mp hw]
    refine ⟨⟨⟨hc.1.split, hc.1.offset_le, hc.1.line_eq⟩, ?_⟩, trivial⟩
    intro fault hfault
    cases hold : c.fault with
    | some old =>
      have he : old = fault := by simpa [Cursor.report, hold] using hfault
      exact he ▸ hc.2 old hold
    | none =>
      have he : ⟨kind, error, found.line⟩ = fault := by simpa [Cursor.report, hold] using hfault
      rw [← he]
      exact hfound

theorem readProgram_reports (source : List Char) :
    ∀ way ∈ (readProgram source).found, way.2.Reports source := by
  refine (steady_reports source).keeps_readProgram source ?_
  refine Cursor.Reports.advance source _ _ ⟨Cursor.start_in source, ?_⟩
  intro fault hfault
  cases hfault

end LineScope.Grammar

namespace LineScope

open LineScope.Grammar LineScope.Number LineScope.Text

/-! ### Unclosed blocks -/

/-- The digits behind the word `line` in a message that ends behind them. -/
theorem lineDigits?_line (digits : List Char) (hne : digits ≠ [])
    (h : ∀ c ∈ digits, c.isDigit = true) :
    lineDigits? ("line ".toList ++ digits ++ [')']) = some digits := by
  have htake : (digits ++ [')']).takeWhile isDecimal = digits := by
    rw [List.takeWhile_append_of_pos fun c hc => isDecimal_of_isDigit c (h c hc)]
    simp [List.takeWhile, show isDecimal ')' = false from rfl]
  have hat : lineDigitsAt? ("line ".toList ++ digits ++ [')']) = some digits := by
    show (if isSpace ' ' && !((digits ++ [')']).takeWhile isDecimal).isEmpty then
      some ((digits ++ [')']).takeWhile isDecimal) else none) = some digits
    rw [htake]
    simp [hne, show isSpace ' ' = true from rfl]
  show (lineDigitsAt? ("line ".toList ++ digits ++ [')'])).or _ = some digits
  rw [hat]
  rfl

theorem lineDigits?_missingTerminator (word : String) (line : Nat) (h : word = "do" ∨ word = "fn") :
    lineDigits? ("missing terminator: end (for \"" ++ word ++ "\" starting at line " ++
      toString line ++ ")").toList = some (Nat.toDigits 10 line) := by
  have hdigits := lineDigits?_line (Nat.toDigits 10 line) Nat.toDigits_ne_nil
    fun c hc => Nat.isDigit_of_mem_toDigits (by omega) (by omega) hc
  rw [← hdigits]
  simp only [String.toList_append, Nat.toString_eq_repr, Nat.toList_repr]
  -- no `line` with digits behind it stands in front
  rcases h with rfl | rfl <;> rfl

theorem errorLine_of_message (failure : Failure) (hcarried : carriedLine? failure = none)
    (hmessage : failure.message.isEmpty = false) :
    errorLine failure =
      match lineDigits? failure.message.toList with
      | some digits => (readDigits digits).map some
      | none => .ok none := by
  rw [errorLine, hcarried]
  dsimp only
  rw [hmessage]
  rfl

/-- A failure that points at a line, which it carries or names in its message. -/
def PointsAt (failure : Failure) (line : Nat) : Prop :=
  errorLine failure = .ok (some (line : Int)) ∨
    errorLine failure = (readDigits (Nat.toDigits 10 line)).map some

theorem errorLine_unexpectedEnd (source file : String) :
    errorLine (unexpectedEnd source file) = .ok none ∨
      ∃ line : Nat, PointsAt (unexpectedEnd source file) line ∧ 1 ≤ line ∧
        line ≤ lineCount source.toList := by
  unfold unexpectedEnd
  split
  · left
    have hnone : lineDigits? "unexpected end of input".toList = none := rfl
    rw [errorLine_of_message _ rfl (by simp)]
    dsimp only
    rw [hnone]
  · rename_i word line hopener
    obtain ⟨hword, hl, hu⟩ := unclosedOpener_bounds source.toList word line hopener
    refine .inr ⟨line, .inr ?_, hl, hu⟩
    rw [errorLine_of_message _ rfl (by simp)]
    dsimp only
    rw [lineDigits?_missingTerminator word line hword]

theorem errorLine_of_carried (failure : Failure) (line : Nat) (file : String)
    (hkind : failure.kind = .parse (some (.number line)) file) (h : 1 ≤ line) :
    errorLine failure = .ok (some (line : Int)) := by
  have hpos : (0 : Int) < line := by omega
  simp only [errorLine, carriedLine?, Failure.lineMark?, hkind, if_pos hpos]

theorem parse_pointsAt (source file : String) (failure : Failure)
    (h : (parse source file).value = .error failure) :
    errorLine failure = .ok none ∨
      ∃ line : Nat, PointsAt failure line ∧ 1 ≤ line ∧ line ≤ lineCount source.toList := by
  unfold parse at h
  dsimp only at h
  split at h
  · rename_i nodes c hcomplete
    split at h
    · cases h
    · rename_i fault hfault
      cases h
      have hmem := List.mem_of_find?_eq_some hcomplete
      obtain ⟨hl, hu⟩ := (readProgram_reports source.toList _ hmem).2 fault hfault
      exact .inr ⟨fault.line, .inl (errorLine_of_carried _ _ file rfl hl), hl, hu⟩
  · split at h
    · cases h
      obtain ⟨line, hline⟩ : ∃ line, line = (lineAndColumn source.toList
        (errorPosition source.toList (readProgram source.toList).reach)).1 := ⟨_, rfl⟩
      have hle : (source.toList.take (errorPosition source.toList
          (readProgram source.toList).reach)).count '\n' ≤ source.toList.count '\n' :=
        (List.take_sublist _ _).count_le _
      have hbounds : 1 ≤ line ∧ line ≤ lineCount source.toList := by
        rw [hline, lineAndColumn, lineCount]
        dsimp only
        omega
      refine .inr ⟨line, .inl (errorLine_of_carried _ line file ?_ hbounds.1), hbounds⟩
      rw [hline]
      rfl
    · cases h
      exact errorLine_unexpectedEnd source file

/-- A parse failure points at a line of the source, or at none. -/
theorem errorLine_of_parse (source file : String) (failure : Failure)
    (h : (parse source file).value = .error failure)
    (hlines : lineCount source.toList < tenPow digitLimit) :
    errorLine failure = .ok none ∨
      ∃ line : Nat, errorLine failure = .ok (some (line : Int)) ∧ 1 ≤ line ∧
        line ≤ lineCount source.toList := by
  rcases parse_pointsAt source file failure h with hnone | ⟨line, hline, hl, hu⟩
  · exact .inl hnone
  · refine .inr ⟨line, ?_, hl, hu⟩
    rcases hline with hline | hline
    · exact hline
    · have hread : readDigits (Nat.toDigits 10 line) = .ok (line : Int) :=
        readInt_toDigits line (Nat.lt_of_le_of_lt hu hlines)
      rw [hline, hread]
      rfl

/-- A line that is read from a parse failure is one of the source. -/
theorem errorLine_bounds (source file : String) (failure : Failure) (line : Int)
    (h : (parse source file).value = .error failure) (hline : errorLine failure = .ok (some line)) :
    1 ≤ line ∧ line ≤ lineCount source.toList := by
  rcases parse_pointsAt source file failure h with hnone | ⟨found, hfound, hl, hu⟩
  · rw [hnone] at hline
    cases hline
  · have hsame : line = found := by
      rcases hfound with hfound | hfound
      · rw [hfound] at hline
        cases hline
        rfl
      · rw [hfound] at hline
        cases hread : readDigits (Nat.toDigits 10 found) with
        | error fault =>
          rw [hread] at hline
          cases hline
        | ok value =>
          rw [hread] at hline
          cases hline
          exact eq_of_readInt_toDigits found line hread
    omega

end LineScope
