import LineScope.Proofs.Analysis.FailureLine
import LineScope.Proofs.Analysis.Masking
import LineScope.Proofs.Analysis.MissingName

/-!
# What escapes from an analysis

An analysis parses first, with recovery if that is asked for, and walks the tree that was accepted
only then.  So an analysis that does not return has one of two causes: the accepted tree needs a
missing name, or a failure names a line whose number is too long to be read.
-/

namespace LineScope

open LineScope.Number LineScope.Text

theorem of_map_eq_ok {ε α β : Type} (f : α → β) (result : Except ε α) (value : β)
    (h : result.map f = .ok value) : ∃ a, result = .ok a ∧ f a = value := by
  cases result with
  | error e => cases h
  | ok a => exact ⟨a, rfl, Except.ok.inj h⟩

theorem of_map_eq_error {ε α β : Type} (f : α → β) (result : Except ε α) (e : ε)
    (h : result.map f = .error e) : result = .error e := by
  cases result with
  | error e' => rw [Except.error.inj h]
  | ok a => cases h

/-! ### Parsing and walking apart -/

/-- Parses a source without walking what is found. -/
def parseOnce (file : String) : Reparse Node := fun _ text =>
  let parsed := Grammar.parse text file
  .ok ⟨⟨parsed.value, [], file⟩, parsed.records⟩

/-- Parses a source, with recovery if that is asked for. -/
def parseRecovering (options : Options) (source : String) : Except Escape (Analysis Node) :=
  match (Grammar.parse source options.file).value with
  | .ok node => .ok (.ok node options.file)
  | .error failure =>
    if options.fix then
      (recover (parseOnce options.file) source failure options.budget options.file).map (·.1)
    else .ok (.failed failure options.file)

/-- Walks the tree that a parse has found, if there is one. -/
def Analysis.walked (analysis : Analysis Node) : Except Escape (Analysis Finding) :=
  match analysis.outcome with
  | .error failure => .ok ⟨.error failure, analysis.recoveredLines, analysis.file⟩
  | .ok node =>
    match Metadata.build node with
    | .error error => .error (.scope error)
    | .ok (node, metadata) =>
      .ok ⟨.ok ⟨node, metadata⟩, analysis.recoveredLines, analysis.file⟩

section Recovery

variable (file : String)

/-- The analysis of a text without recovery. -/
def reanalyze : Reparse Finding := fun _ text => analyzeOnce file text

theorem analyzeOnce_eq (text : String) :
    (analyzeOnce file text).map (·.value) =
      Analysis.walked ⟨(Grammar.parse text file).value, [], file⟩ := by
  unfold analyzeOnce Analysis.walked
  dsimp only
  cases (Grammar.parse text file).value with
  | error failure => rfl
  | ok node =>
    dsimp only
    cases Metadata.build node <;> rfl

theorem call_parseOnce (trace : Trace) (text : String) :
    ∃ next, trace.call (parseOnce file) text =
      .ok (⟨(Grammar.parse text file).value, [], file⟩, next) :=
  ⟨_, rfl⟩

/-- How a call of the parser and a call of the analysis on one text compare. -/
inductive Answers (text : String) (first second : Trace) : Prop where
  | failed (failure : Failure) (next last : Trace)
      (hvalue : (Grammar.parse text file).value = .error failure)
      (hparse : first.call (parseOnce file) text = .ok (.failed failure file, next))
      (hanalyze : second.call (reanalyze file) text = .ok (.failed failure file, last))
  | escaped (node : Node) (error : ScopeError) (next : Trace)
      (hbuild : Metadata.build node = .error error)
      (hparse : first.call (parseOnce file) text = .ok (.ok node file, next))
      (hanalyze : second.call (reanalyze file) text = .error (.scope error))
  | found (node tree : Node) (metadata : Metadata) (next last : Trace)
      (hbuild : Metadata.build node = .ok (tree, metadata))
      (hparse : first.call (parseOnce file) text = .ok (.ok node file, next))
      (hanalyze : second.call (reanalyze file) text = .ok (.ok ⟨tree, metadata⟩ file, last))

theorem answers (text : String) (first second : Trace) : Answers file text first second := by
  have hanswer := analyzeOnce_eq file text
  obtain ⟨next, hparse⟩ := call_parseOnce file first text
  have hcall : second.call (reanalyze file) text = (analyzeOnce file text).map fun answer =>
      (answer.value, ⟨second.calls ++ [text], second.records ++ answer.records⟩) := by
    unfold Trace.call reanalyze
    cases analyzeOnce file text <;> rfl
  cases hvalue : (Grammar.parse text file).value with
  | error failure =>
    rw [hvalue] at hanswer hparse
    obtain ⟨answer, honce, hfound⟩ := of_map_eq_ok _ _ _ hanswer
    rw [honce] at hcall
    exact .failed failure _ _ hvalue hparse (hcall.trans (by rw [Except.map, hfound]; rfl))
  | ok node =>
    rw [hvalue] at hanswer hparse
    cases hbuild : Metadata.build node with
    | error error =>
      simp only [Analysis.walked, hbuild] at hanswer
      rw [of_map_eq_error _ _ _ hanswer] at hcall
      exact .escaped node error _ hbuild hparse hcall
    | ok built =>
      simp only [Analysis.walked, hbuild] at hanswer
      obtain ⟨answer, honce, hfound⟩ := of_map_eq_ok _ _ _ hanswer
      rw [honce] at hcall
      exact .found node built.1 built.2 _ _ hbuild hparse
        (hcall.trans (by rw [Except.map, hfound]; rfl))

/-- How a search among the lines above with the parser and one with the analysis compare. -/
inductive Searches (source : String) (lines : List Int) (first second : Trace) : Prop where
  | missed (next last : Trace)
      (hparse : tryLines (parseOnce file) source lines first = .ok (none, next))
      (hanalyze : tryLines (reanalyze file) source lines second = .ok (none, last))
  | escaped (line : Int) (analysis : Analysis Node) (escape : Escape) (next : Trace)
      (hwalked : analysis.walked = .error escape)
      (hparse : tryLines (parseOnce file) source lines first = .ok (some (line, analysis), next))
      (hanalyze : tryLines (reanalyze file) source lines second = .error escape)
  | found (line : Int) (analysis : Analysis Node) (found : Analysis Finding) (next last : Trace)
      (hwalked : analysis.walked = .ok found)
      (hparse : tryLines (parseOnce file) source lines first = .ok (some (line, analysis), next))
      (hanalyze : tryLines (reanalyze file) source lines second = .ok (some (line, found), last))

theorem searches (source : String) (lines : List Int) (first second : Trace) :
    Searches file source lines first second := by
  induction lines generalizing first second with
  | nil => exact .missed first second rfl rfl
  | cons line lines ih =>
    cases answers file (maskLine source line) first second with
    | failed failure next last hvalue hparse hanalyze =>
      have hnext : tryLines (parseOnce file) source (line :: lines) first =
          tryLines (parseOnce file) source lines next := by
        rw [tryLines, hparse]
        rfl
      have hlast : tryLines (reanalyze file) source (line :: lines) second =
          tryLines (reanalyze file) source lines last := by
        rw [tryLines, hanalyze]
        rfl
      cases ih next last with
      | missed next last hp ha => exact .missed next last (hnext.trans hp) (hlast.trans ha)
      | escaped line analysis escape next hw hp ha =>
        exact .escaped line analysis escape next hw (hnext.trans hp) (hlast.trans ha)
      | found line analysis found next last hw hp ha =>
        exact .found line analysis found next last hw (hnext.trans hp) (hlast.trans ha)
    | escaped node error next hbuild hparse hanalyze =>
      refine .escaped line (.ok node file) (.scope error) next ?_ ?_ ?_
      · simp only [Analysis.walked, Analysis.ok, hbuild]
      · rw [tryLines, hparse]
        rfl
      · rw [tryLines, hanalyze]
        rfl
    | found node tree metadata next last hbuild hparse hanalyze =>
      refine .found line (.ok node file) (.ok ⟨tree, metadata⟩ file) next last ?_ ?_ ?_
      · simp only [Analysis.walked, Analysis.ok, hbuild]
      · rw [tryLines, hparse]
        rfl
      · rw [tryLines, hanalyze]
        rfl

omit file in
theorem walked_recoveredWith (analysis : Analysis Node) (lines : List Int) (file : String)
    (first second : Trace) :
    (recoveredWith analysis lines file first).1.walked =
      analysis.walked.map fun found => (recoveredWith found lines file second).1 := by
  unfold Analysis.walked recoveredWith
  dsimp only
  cases analysis.outcome with
  | error failure => rfl
  | ok node =>
    dsimp only
    cases Metadata.build node <;> rfl

/-- Recovery with the analysis is recovery with the parser, and then a walk of what it accepts. -/
theorem attempts_eq (budget : Nat) (source : String) (failure : Failure) (replaced : List Int)
    (first second : Trace) :
    (attempts (reanalyze file) file budget source failure replaced second).map (·.1) =
      attempts (parseOnce file) file budget source failure replaced first >>=
        fun found => found.1.walked := by
  induction budget generalizing source failure replaced first second with
  | zero => rfl
  | succ budget ih =>
    unfold attempts
    cases errorLine failure with
    | error fault => rfl
    | ok line? =>
      cases line? with
      | none => rfl
      | some line =>
        simp only [Except.mapError, bind, Except.bind]
        by_cases hreplaced : replaced.contains line = true
        · rw [if_pos hreplaced, if_pos hreplaced]
          rfl
        · rw [if_neg hreplaced, if_neg hreplaced]
          cases answers file (maskLine source line) first second with
          | escaped node error next hbuild hparse hanalyze =>
            rw [hparse, hanalyze]
            simp [Analysis.ok, recoveredWith, Analysis.walked, hbuild, Except.map, pure, Except.pure]
          | found node tree metadata next last hbuild hparse hanalyze =>
            rw [hparse, hanalyze]
            simp [Analysis.ok, recoveredWith, Analysis.walked, hbuild, Except.map, pure, Except.pure]
          | failed later next last hvalue hparse hanalyze =>
            rw [hparse, hanalyze]
            dsimp only [Analysis.failed]
            -- the masked line does not help, so the lines above it are tried
            cases searches file source (if opensLine source failure line then
              precedingCodeLines source line replaced else []) next last with
            | missed next last hparse hanalyze =>
              rw [hparse, hanalyze]
              exact ih _ later _ next last
            | escaped earlier analysis escape next hwalked hparse hanalyze =>
              have hrecovered := walked_recoveredWith analysis (earlier :: replaced) file next next
              rw [hwalked] at hrecovered
              rw [hparse, hanalyze]
              exact hrecovered.symm
            | found earlier analysis found next last hwalked hparse hanalyze =>
              have hrecovered := walked_recoveredWith analysis (earlier :: replaced) file next last
              rw [hwalked] at hrecovered
              rw [hparse, hanalyze]
              exact hrecovered.symm

end Recovery

/-- An analysis is a parse, with recovery if that is asked for, and then a walk. -/
theorem analyze_eq (options : Options) (source : String) :
    (analyze options source).map (·.value) =
      parseRecovering options source >>= Analysis.walked := by
  have hanswer := analyzeOnce_eq options.file source
  unfold analyze parseRecovering
  cases hvalue : (Grammar.parse source options.file).value with
  | ok node =>
    rw [hvalue] at hanswer
    cases hbuild : Metadata.build node with
    | error error =>
      simp only [Analysis.walked, hbuild] at hanswer
      rw [of_map_eq_error _ _ _ hanswer]
      simp only [bind, Except.bind, Except.map, Analysis.walked, Analysis.ok, hbuild]
    | ok built =>
      simp only [Analysis.walked, hbuild] at hanswer
      obtain ⟨first, honce, hfirst⟩ := of_map_eq_ok _ _ _ hanswer
      rw [honce]
      simp only [bind, Except.bind, hfirst, Analysis.walked, Analysis.ok, hbuild]
      rw [← hfirst]
      rfl
  | error failure =>
    rw [hvalue] at hanswer
    obtain ⟨first, honce, hfirst⟩ := of_map_eq_ok _ _ _ hanswer
    rw [honce]
    simp only [bind, Except.bind, hfirst]
    by_cases hfix : options.fix = true
    · rw [if_pos hfix, if_pos hfix]
      unfold recover
      have hattempts := attempts_eq options.file options.budget.toNat source failure [] .start .start
      calc
        _ = (attempts (reanalyze options.file) options.file options.budget.toNat source failure []
              .start).map (·.1) := by
          show Except.map _ (Except.bind (attempts (reanalyze options.file) _ _ _ _ _ _) _) = _
          cases attempts (reanalyze options.file) options.file options.budget.toNat source failure
            [] .start <;> rfl
        _ = attempts (parseOnce options.file) options.file options.budget.toNat source failure []
              .start >>= fun found => found.1.walked := hattempts
        _ = _ := by
          cases attempts (parseOnce options.file) options.file options.budget.toNat source failure
            [] .start <;> rfl
    · rw [if_neg hfix, if_neg hfix]
      simp only [Except.map, pure, Except.pure, hfirst]
      rfl

/-! ### Line numbers -/

/-- Recovery with the parser always ends in a result, unless a line number is beyond the limit. -/
theorem attempts_parse_error (file : String) (budget : Nat) (source text : String)
    (failure : Failure) (replaced : List Int) (trace : Trace) (escape : Escape)
    (htext : lineCount text.toList = lineCount source.toList)
    (hfailure : (Grammar.parse text file).value = .error failure)
    (h : attempts (parseOnce file) file budget source failure replaced trace = .error escape) :
    tenPow digitLimit ≤ lineCount source.toList := by
  induction budget generalizing source text failure replaced trace with
  | zero => cases h
  | succ budget ih =>
    unfold attempts at h
    cases hline : errorLine failure with
    | error fault =>
      by_contra hlt
      rcases errorLine_of_parse text file failure hfailure (by omega) with hnone | ⟨line, hsome, _⟩
      · rw [hline] at hnone
        cases hnone
      · rw [hline] at hsome
        cases hsome
    | ok line? =>
      rw [hline] at h
      cases line? with
      | none => cases h
      | some line =>
        simp only [Except.mapError, bind, Except.bind] at h
        split at h
        · cases h
        · obtain ⟨behind, hcall⟩ := call_parseOnce file trace (maskLine source line)
          rw [hcall] at h
          dsimp only at h
          split at h
          · cases h
          · rename_i next hnext
            have hmasked := lineCount_maskLine source line
            cases searches file source (if opensLine source failure line then
              precedingCodeLines source line replaced else []) behind behind with
            | missed next last hparse hanalyze =>
              rw [hparse] at h
              have hcount := ih _ _ _ _ _ rfl hnext h
              omega
            | escaped earlier analysis escape next hwalked hparse hanalyze =>
              rw [hparse] at h
              cases h
            | found earlier analysis found next last hwalked hparse hanalyze =>
              rw [hparse] at h
              cases h

theorem parseRecovering_error (options : Options) (source : String) (escape : Escape)
    (h : parseRecovering options source = .error escape) :
    tenPow digitLimit ≤ lineCount source.toList := by
  unfold parseRecovering at h
  split at h
  · cases h
  · rename_i failure hfailure
    split at h
    · exact attempts_parse_error options.file _ source source failure [] .start escape rfl hfailure
        (of_map_eq_error _ _ _ h)
    · cases h

/-! ### What escapes -/

theorem walked_isOk_iff (analysis : Analysis Node) :
    (∃ found, analysis.walked = .ok found) ↔ ∀ tree, analysis.outcome = .ok tree →
      ∀ place ∈ tree.arrivals, place.node.lacksName = false := by
  unfold Analysis.walked
  cases analysis.outcome with
  | error failure => simp
  | ok tree =>
    have hok := Metadata.build_isOk_iff tree
    dsimp only
    cases hbuild : Metadata.build tree with
    | error error =>
      rw [hbuild] at hok
      constructor
      · rintro ⟨found, hfound⟩
        cases hfound
      · intro hnamed
        cases hok.mpr (hnamed tree rfl)
    | ok built =>
      rw [hbuild] at hok
      constructor
      · rintro _ other he
        cases he
        exact hok.mp rfl
      · intro _
        exact ⟨_, rfl⟩

/-- An analysis returns exactly if its parse does and no place of the accepted tree, if there is
one, needs a missing name.  The parse of a source returns unless its lines outnumber all numerals
that can be read. -/
theorem analyze_returns_iff (options : Options) (source : String) :
    ((∃ result, analyze options source = .ok result) ↔
      ∃ analysis, parseRecovering options source = .ok analysis ∧
        ∀ tree, analysis.outcome = .ok tree →
          ∀ place ∈ tree.arrivals, place.node.lacksName = false) ∧
    (lineCount source.toList < tenPow digitLimit →
      ∃ analysis, parseRecovering options source = .ok analysis) := by
  have heq := analyze_eq options source
  refine ⟨⟨?_, ?_⟩, ?_⟩
  · rintro ⟨result, hresult⟩
    rw [hresult] at heq
    obtain ⟨analysis, hparse, hwalked⟩ := ok_of_bind _ _ _ heq.symm
    exact ⟨analysis, hparse, (walked_isOk_iff analysis).mp ⟨_, hwalked⟩⟩
  · rintro ⟨analysis, hparse, hnamed⟩
    obtain ⟨found, hwalked⟩ := (walked_isOk_iff analysis).mpr hnamed
    rw [hparse] at heq
    obtain ⟨result, hresult, _⟩ := of_map_eq_ok _ _ _ (heq.trans hwalked)
    exact ⟨result, hresult⟩
  · intro hlines
    cases hparse : parseRecovering options source with
    | ok analysis => exact ⟨analysis, rfl⟩
    | error escape =>
      have hmany := parseRecovering_error options source escape hparse
      omega

/-- A directive that is given a module name without segments ends the analysis. -/
theorem analyze_escapes_emptyAlias :
    ¬ ∃ result, analyze ⟨false, defaultBudget, Grammar.defaultFile⟩ "alias __aliases__()" =
      .ok result := by
  have hescapes : (analyze ⟨false, defaultBudget, Grammar.defaultFile⟩
      "alias __aliases__()").isOk = false := by decide +kernel
  rintro ⟨result, hresult⟩
  rw [hresult] at hescapes
  cases hescapes

end LineScope
