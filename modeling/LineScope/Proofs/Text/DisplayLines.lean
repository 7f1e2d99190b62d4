import LineScope.Proofs.Text.Lines

/-!
# Display lines

A display line reaches to the next break.  As long as a text holds no breaks but line feeds, with or
without carriage returns before them, its display lines are its source lines.
-/

namespace LineScope.Text

/-! ### Breaks -/

theorem displayLines_cons (c : Char) (cs : List Char) (hc : isLineBreak c = false) :
    displayLines (c :: cs) =
      match displayLines cs with
      | [] => [⟨[c], []⟩]
      | l :: ls => ⟨c :: l.text, l.ending⟩ :: ls := by
  rw [displayLines.eq_def]
  dsimp only
  rw [hc]
  rfl

theorem displayLines_feed (rest : List Char) :
    displayLines ('\n' :: rest) = ⟨[], ['\n']⟩ :: displayLines rest := by
  rw [displayLines.eq_def]
  rfl

theorem displayLines_return_feed (rest : List Char) :
    displayLines ('\r' :: '\n' :: rest) = ⟨[], ['\r', '\n']⟩ :: displayLines rest := by
  rw [displayLines.eq_def]
  dsimp only
  rw [displayLines_feed]
  rfl

/-- A break ends a display line, or it is the carriage return of the line feed behind it. -/
theorem displayLines_break_cases (c : Char) (cs : List Char) (hc : isLineBreak c = true) :
    displayLines (c :: cs) = ⟨[], [c]⟩ :: displayLines cs ∨
      c = '\r' ∧ ∃ ending ls, displayLines cs = ⟨[], '\n' :: ending⟩ :: ls ∧
        displayLines (c :: cs) = ⟨[], ['\r', '\n']⟩ :: ls := by
  rw [displayLines.eq_def]
  dsimp only
  rw [hc, if_pos rfl]
  split
  · rename_i ending ls hlines
    exact .inr ⟨rfl, ending, ls, hlines, rfl⟩
  · exact .inl rfl

theorem displayLines_head (cs : List Char) (l : DisplayLine) (ls : List DisplayLine)
    (h : displayLines cs = l :: ls) : (l.text ++ l.ending).head? = cs.head? := by
  cases cs with
  | nil => cases h
  | cons c cs =>
    cases hc : isLineBreak c with
    | true =>
      rcases displayLines_break_cases c cs hc with hlines | ⟨rfl, ending, others, -, hlines⟩
      · rw [hlines] at h
        cases h
        rfl
      · rw [hlines] at h
        cases h
        rfl
    | false =>
      rw [displayLines_cons c cs hc] at h
      split at h
      · cases h
        rfl
      · cases h
        rfl

theorem displayLines_eq_nil (cs : List Char) (h : displayLines cs = []) : cs = [] := by
  cases cs with
  | nil => rfl
  | cons c cs =>
    cases hc : isLineBreak c with
    | true =>
      rcases displayLines_break_cases c cs hc with hlines | ⟨-, ending, ls, -, hlines⟩
      · rw [hlines] at h
        cases h
      · rw [hlines] at h
        cases h
    | false =>
      rw [displayLines_cons c cs hc] at h
      split at h <;> cases h

theorem displayLines_break (c : Char) (cs : List Char) (hc : isLineBreak c = true)
    (h : c = '\r' → cs.head? ≠ some '\n') :
    displayLines (c :: cs) = ⟨[], [c]⟩ :: displayLines cs := by
  rcases displayLines_break_cases c cs hc with hlines | ⟨hreturn, ending, ls, hlines, -⟩
  · exact hlines
  · exact absurd (displayLines_head cs _ _ hlines).symm (h hreturn)

/-- What is displayed of a line holds no break. -/
theorem not_break_displayLines (cs : List Char) :
    ∀ l ∈ displayLines cs, ∀ c ∈ l.text, isLineBreak c = false := by
  induction cs with
  | nil => exact nofun
  | cons d cs ih =>
    cases hd : isLineBreak d with
    | true =>
      rcases displayLines_break_cases d cs hd with hlines | ⟨-, ending, ls, hrest, hlines⟩
      · rw [hlines]
        exact List.forall_mem_cons.mpr ⟨nofun, ih⟩
      · rw [hrest] at ih
        rw [hlines]
        exact List.forall_mem_cons.mpr ⟨nofun, (List.forall_mem_cons.mp ih).2⟩
    | false =>
      rw [displayLines_cons d cs hd]
      cases hlines : displayLines cs with
      | nil => exact List.forall_mem_singleton.mpr (List.forall_mem_singleton.mpr hd)
      | cons first rest =>
        rw [hlines] at ih
        obtain ⟨hfirst, hrest⟩ := List.forall_mem_cons.mp ih
        exact List.forall_mem_cons.mpr ⟨List.forall_mem_cons.mpr ⟨hd, hfirst⟩, hrest⟩

/-- What is displayed of a text are characters of it. -/
theorem mem_of_mem_displayLines (cs : List Char) : ∀ l ∈ displayLines cs, ∀ c ∈ l.text, c ∈ cs := by
  induction cs with
  | nil => exact nofun
  | cons d cs ih =>
    have hlater : ∀ l ∈ displayLines cs, ∀ c ∈ l.text, c ∈ d :: cs :=
      fun l hl c hc => List.mem_cons_of_mem d (ih l hl c hc)
    cases hd : isLineBreak d with
    | true =>
      rcases displayLines_break_cases d cs hd with hlines | ⟨-, ending, ls, hrest, hlines⟩
      · rw [hlines]
        exact List.forall_mem_cons.mpr ⟨nofun, hlater⟩
      · rw [hrest] at hlater
        rw [hlines]
        exact List.forall_mem_cons.mpr ⟨nofun, (List.forall_mem_cons.mp hlater).2⟩
    | false =>
      rw [displayLines_cons d cs hd]
      cases hlines : displayLines cs with
      | nil => simp
      | cons first rest =>
        rw [hlines] at hlater
        obtain ⟨hfirst, hrest⟩ := List.forall_mem_cons.mp hlater
        exact List.forall_mem_cons.mpr
          ⟨List.forall_mem_cons.mpr ⟨List.mem_cons_self, hfirst⟩, hrest⟩

theorem displayLines_of_no_break (l : List Char) (h : ∀ c ∈ l, isLineBreak c = false)
    (hne : l ≠ []) : displayLines l = [⟨l, []⟩] := by
  induction l with
  | nil => exact absurd rfl hne
  | cons c l ih =>
    rw [displayLines_cons c l (h c List.mem_cons_self)]
    cases l with
    | nil => rfl
    | cons d l => rw [ih (fun e he => h e (List.mem_cons_of_mem _ he)) (List.cons_ne_nil _ _)]

/-- Characters that are no breaks lengthen the first display line behind them. -/
theorem displayLines_append (front rest : List Char) (first : DisplayLine) (ls : List DisplayLine)
    (h : ∀ c ∈ front, isLineBreak c = false) (hrest : displayLines rest = first :: ls) :
    displayLines (front ++ rest) = ⟨front ++ first.text, first.ending⟩ :: ls := by
  induction front with
  | nil => exact hrest
  | cons c front ih =>
    rw [List.cons_append, displayLines_cons c _ (h c List.mem_cons_self),
      ih fun d hd => h d (List.mem_cons_of_mem _ hd)]
    rfl

theorem displayLines_append_break (l rest ending : List Char) (ls : List DisplayLine)
    (h : ∀ c ∈ l, isLineBreak c = false) (hrest : displayLines rest = ⟨[], ending⟩ :: ls) :
    displayLines (l ++ rest) = ⟨l, ending⟩ :: ls := by
  rw [displayLines_append l rest _ ls h hrest, List.append_nil]

/-! ### Display lines against source lines -/

theorem sourceLines_append (l rest : List Char) (h : '\n' ∉ l) :
    sourceLines (l ++ '\n' :: rest) = dropReturn l :: sourceLines rest := by
  rw [sourceLines, feedLines_append l rest h, sourceLines]
  cases hlines : feedLines rest with
  | nil => exact absurd hlines (feedLines_ne_nil rest)
  | cons first others => rfl

/-- A line feed, with or without a carriage return before it, ends a display line like a source line. -/
theorem displayLines_append_feed (l rest : List Char)
    (h : ∀ c ∈ dropReturn l, isLineBreak c = false) :
    ∃ ending, displayLines (l ++ '\n' :: rest) = ⟨dropReturn l, ending⟩ :: displayLines rest := by
  unfold dropReturn at h ⊢
  split
  · rename_i hlast
    rw [if_pos hlast] at h
    have happend : l ++ '\n' :: rest = l.dropLast ++ '\r' :: '\n' :: rest := by
      conv_lhs => rw [← List.dropLast_append_getLast? '\r' hlast]
      simp
    rw [happend]
    exact ⟨_, displayLines_append_break _ _ _ _ h (displayLines_return_feed rest)⟩
  · rename_i hlast
    rw [if_neg hlast] at h
    exact ⟨_, displayLines_append_break _ _ _ _ h (displayLines_feed rest)⟩

/-- Up to the first line that holds another break, source lines and display lines are the same. -/
theorem displayLine_eq_sourceLine (cs text : List Char) (i : Nat)
    (htext : (sourceLines cs)[i]? = some text)
    (h : ∀ l ∈ (sourceLines cs).take (i + 1), ∀ c ∈ l, isLineBreak c = false) :
    (((displayLines cs).map (·.text))[i]?).getD [] = text := by
  induction i generalizing cs with
  | zero =>
    by_cases hm : '\n' ∈ cs
    · obtain ⟨first, rest, rfl, hfirst⟩ := List.eq_append_cons_of_mem hm
      rw [sourceLines_append first rest hfirst] at htext h
      obtain rfl : dropReturn first = text := Option.some.inj htext
      obtain ⟨ending, hlines⟩ := displayLines_append_feed first rest (h _ List.mem_cons_self)
      rw [hlines]
      rfl
    · rw [sourceLines, feedLines_of_not_mem cs hm] at htext h
      obtain rfl : cs = text := Option.some.inj htext
      cases cs with
      | nil => rfl
      | cons c cs =>
        rw [displayLines_of_no_break _ (h _ List.mem_cons_self) (List.cons_ne_nil _ _)]
        rfl
  | succ i ih =>
    by_cases hm : '\n' ∈ cs
    · obtain ⟨first, rest, rfl, hfirst⟩ := List.eq_append_cons_of_mem hm
      rw [sourceLines_append first rest hfirst] at htext h
      obtain ⟨ending, hlines⟩ := displayLines_append_feed first rest (h _ List.mem_cons_self)
      rw [hlines]
      exact ih rest htext fun l hl => h l (List.mem_cons_of_mem _ hl)
    · rw [sourceLines, feedLines_of_not_mem cs hm] at htext
      cases htext

end LineScope.Text
