import LineScope.Proofs.Analysis.Rounds

/-!
# The budget of a recovery

What an attempt does depends on the stage at which it starts and not on how many attempts are left.
So a recovery with a larger budget goes through the stages of one with a smaller budget, and where
the smaller one ends for a reason of its own the larger one ends too.
-/

namespace LineScope

variable {α : Type}

/-- Where a recovery stands in front of an attempt: the text with the lines masked so far, the
failure to recover from, those lines, and the calls so far. -/
structure Stage where
  source : String
  failure : Failure
  replaced : List Int
  trace : Trace

namespace Stage

def start (source : String) (failure : Failure) : Stage := ⟨source, failure, [], .start⟩

def attempts (reparse : Reparse α) (file : String) (budget : Nat) (stage : Stage) :
    Except Escape (Analysis α × Trace) :=
  LineScope.attempts reparse file budget stage.source stage.failure stage.replaced stage.trace

/-- The failure points at no line, or at one that has been masked. -/
def IsStuck (stage : Stage) : Prop :=
  errorLine stage.failure = .ok none ∨
    ∃ line ∈ stage.replaced, errorLine stage.failure = .ok (some line)

/-- An attempt that fails: the parser accepts the text neither with the line of the failure masked
nor with one of the lines above. -/
inductive Fails (reparse : Reparse α) (stage : Stage) : Stage → Prop
  | intro (line : Int) (analysis : Analysis α) (called searched : Trace) (failure : Failure)
      (hline : errorLine stage.failure = .ok (some line)) (hfresh : line ∉ stage.replaced)
      (hcall : stage.trace.call reparse (maskLine stage.source line) = .ok (analysis, called))
      (hfailure : analysis.outcome = .error failure)
      (habove : tryLines reparse stage.source
        (linesAbove stage.source stage.failure line stage.replaced) called =
          .ok (none, searched)) :
      Fails reparse stage
        ⟨maskLine stage.source line, failure, line :: stage.replaced, searched⟩

/-- The stage at which a recovery without success ends: its budget is used up there, or it is stuck
there. -/
inductive EndsAt (reparse : Reparse α) : (budget : Nat) → (stage final : Stage) → Prop
  | usedUp (stage : Stage) : EndsAt reparse 0 stage stage
  | stuck (budget : Nat) (stage : Stage) (h : stage.IsStuck) :
      EndsAt reparse (budget + 1) stage stage
  | failed (budget : Nat) (stage next final : Stage) (h : stage.Fails reparse next)
      (hrest : EndsAt reparse budget next final) : EndsAt reparse (budget + 1) stage final

section Attempts

variable (reparse : Reparse α) (file : String)

theorem attempts_of_isStuck (stage : Stage) (h : stage.IsStuck) :
    ∃ behind, behind.calls = stage.trace.calls ∧
      ∀ budget, stage.attempts reparse file (budget + 1) =
        .ok (.failed stage.failure file, behind) := by
  rcases h with hline | ⟨line, hmem, hline⟩
  · refine ⟨stage.trace.note .debug (file ++ ": no line in error, giving up recovery"), rfl,
      fun budget => ?_⟩
    rw [attempts, LineScope.attempts, hline]
    rfl
  · refine ⟨stage.trace.note .debug (file ++ ": line " ++ toString line ++
      " already replaced, giving up recovery"), rfl, fun budget => ?_⟩
    have hreplaced : stage.replaced.contains line = true := by simpa using hmem
    rw [attempts, LineScope.attempts, hline]
    simp only [Except.mapError, bind, Except.bind, if_pos hreplaced]
    rfl

/-- An attempt at a line that is not masked yet: a call, then the calls above. -/
theorem attempts_at_line (stage : Stage) (line : Int)
    (hline : errorLine stage.failure = .ok (some line)) (hfresh : line ∉ stage.replaced)
    (budget : Nat) :
    stage.attempts reparse file (budget + 1) = (do
      let (analysis, called) ← stage.trace.call reparse (maskLine stage.source line)
      match analysis.outcome with
      | .ok _ => return recoveredWith analysis (line :: stage.replaced) file called
      | .error next =>
        let (found, searched) ← tryLines reparse stage.source
          (linesAbove stage.source stage.failure line stage.replaced) called
        match found with
        | some (earlier, analysis) =>
          return recoveredWith analysis (earlier :: stage.replaced) file searched
        | none =>
          attempts reparse file budget
            ⟨maskLine stage.source line, next, line :: stage.replaced, searched⟩) := by
  rw [attempts, LineScope.attempts, hline]
  simp only [Except.mapError, bind, Except.bind, List.contains_eq_mem, hfresh, decide_false,
    Bool.false_eq_true, if_false, linesAbove]
  rfl

theorem attempts_of_fails (stage next : Stage) (h : stage.Fails reparse next) (budget : Nat) :
    stage.attempts reparse file (budget + 1) = next.attempts reparse file budget := by
  obtain ⟨line, analysis, called, searched, failure, hline, hfresh, hcall, hfailure, habove⟩ := h
  rw [attempts_at_line reparse file stage line hline hfresh]
  simp only [hcall, hfailure, habove, bind, Except.bind]

theorem tryLines_success (source : String) (lines : List Int) (trace behind : Trace) (line : Int)
    (analysis : Analysis α)
    (h : tryLines reparse source lines trace = .ok (some (line, analysis), behind)) :
    analysis.success = true := by
  induction lines generalizing trace with
  | nil => simp [tryLines] at h
  | cons first lines ih =>
    cases hcall : trace.call reparse (maskLine source first) with
    | error escape => simp [tryLines, hcall, bind, Except.bind] at h
    | ok answer =>
      by_cases hsuccess : answer.1.success = true
      · simp [tryLines, hcall, hsuccess, bind, Except.bind, pure, Except.pure] at h
        obtain ⟨⟨-, rfl⟩, -⟩ := h
        exact hsuccess
      · simp [tryLines, hcall, hsuccess, bind, Except.bind] at h
        exact ih _ h

/-- What an attempt comes to, whatever the budget behind it. -/
inductive Turn (stage : Stage) : Prop
  | escapes (escape : Escape)
      (h : ∀ budget, stage.attempts reparse file (budget + 1) = .error escape)
  | stuck (h : stage.IsStuck)
  | recovers (analysis : Analysis α) (trace : Trace) (hsuccess : analysis.success = true)
      (h : ∀ budget, stage.attempts reparse file (budget + 1) = .ok (analysis, trace))
  | fails (next : Stage) (h : stage.Fails reparse next)

theorem Turn.recoveredWith (stage : Stage) (analysis : Analysis α) (lines : List Int)
    (trace : Trace) (hsuccess : analysis.success = true)
    (h : ∀ budget, stage.attempts reparse file (budget + 1) =
      .ok (LineScope.recoveredWith analysis lines file trace)) : Turn reparse file stage :=
  .recovers (LineScope.recoveredWith analysis lines file trace).1
    (LineScope.recoveredWith analysis lines file trace).2 hsuccess h

theorem turn_at_line (stage : Stage) (line : Int)
    (hline : errorLine stage.failure = .ok (some line)) (hfresh : line ∉ stage.replaced) :
    Turn reparse file stage := by
  have hunfold := attempts_at_line reparse file stage line hline hfresh
  cases hcall : stage.trace.call reparse (maskLine stage.source line) with
  | error escape =>
    exact .escapes escape fun budget => by simp only [hunfold, hcall, bind, Except.bind]
  | ok answer =>
    cases houtcome : answer.1.outcome with
    | ok value =>
      have hsuccess : answer.1.success = true := by
        rw [Analysis.success, houtcome]
        rfl
      refine .recoveredWith reparse file stage answer.1 (line :: stage.replaced) answer.2
        hsuccess fun budget => ?_
      simp only [hunfold, hcall, houtcome, bind, Except.bind]
      rfl
    | error next =>
      cases habove : tryLines reparse stage.source
          (linesAbove stage.source stage.failure line stage.replaced) answer.2 with
      | error escape =>
        exact .escapes escape fun budget => by
          simp only [hunfold, hcall, houtcome, habove, bind, Except.bind]
      | ok searched =>
        obtain ⟨_ | ⟨earlier, found⟩, behind⟩ := searched
        · exact .fails _
            (.intro line answer.1 answer.2 behind next hline hfresh hcall houtcome habove)
        · have hsuccess := tryLines_success reparse _ _ _ _ _ _ habove
          refine .recoveredWith reparse file stage found (earlier :: stage.replaced) behind hsuccess
            fun budget => ?_
          simp only [hunfold, hcall, houtcome, habove, bind, Except.bind]
          rfl

theorem turn (stage : Stage) : Turn reparse file stage := by
  cases hline : errorLine stage.failure with
  | error fault =>
    refine .escapes (.numeral fault) fun budget => ?_
    rw [attempts, LineScope.attempts, hline]
    rfl
  | ok line? =>
    cases line? with
    | none => exact .stuck (.inl hline)
    | some line =>
      by_cases hmem : line ∈ stage.replaced
      · exact .stuck (.inr ⟨line, hmem, hline⟩)
      · exact turn_at_line reparse file stage line hline hmem

/-! ### Runs with different budgets -/

theorem attempts_success_mono (budget larger : Nat) (hle : budget ≤ larger) (stage : Stage)
    (analysis : Analysis α) (trace : Trace)
    (h : stage.attempts reparse file budget = .ok (analysis, trace))
    (hsuccess : analysis.success = true) :
    stage.attempts reparse file larger = .ok (analysis, trace) := by
  induction budget generalizing stage larger with
  | zero =>
    cases h
    cases hsuccess
  | succ budget ih =>
    obtain ⟨larger, rfl⟩ : ∃ n, larger = n + 1 := ⟨larger - 1, by omega⟩
    cases turn reparse file stage with
    | escapes escape hescape => simp [hescape] at h
    | stuck hstuck =>
      obtain ⟨behind, -, hfailed⟩ := attempts_of_isStuck reparse file stage hstuck
      rw [hfailed] at h
      cases h
      cases hsuccess
    | recovers found behind _ hfound => rw [hfound, ← hfound budget, h]
    | fails next hnext =>
      rw [attempts_of_fails reparse file stage next hnext] at h ⊢
      exact ih larger (by omega) next h

theorem endsAt_of_failed (budget : Nat) (stage : Stage) (analysis : Analysis α) (trace : Trace)
    (h : stage.attempts reparse file budget = .ok (analysis, trace))
    (hfailed : analysis.success = false) :
    ∃ final, EndsAt reparse budget stage final ∧ analysis = .failed final.failure file ∧
      trace.calls = final.trace.calls := by
  induction budget generalizing stage with
  | zero =>
    cases h
    exact ⟨stage, .usedUp stage, rfl, rfl⟩
  | succ budget ih =>
    cases turn reparse file stage with
    | escapes escape hescape => simp [hescape] at h
    | stuck hstuck =>
      obtain ⟨behind, hcalls, hresult⟩ := attempts_of_isStuck reparse file stage hstuck
      rw [hresult] at h
      cases h
      exact ⟨stage, .stuck budget stage hstuck, rfl, hcalls⟩
    | recovers found behind hsuccess hfound =>
      rw [hfound] at h
      cases h
      simp [hsuccess] at hfailed
    | fails next hnext =>
      rw [attempts_of_fails reparse file stage next hnext] at h
      obtain ⟨final, hends, hanalysis, hcalls⟩ := ih next h
      exact ⟨final, .failed budget stage next final hnext hends, hanalysis, hcalls⟩

theorem attempts_of_endsAt (budget larger : Nat) (hle : budget ≤ larger) (stage final : Stage)
    (h : EndsAt reparse budget stage final) (hstuck : final.IsStuck) :
    ∃ trace, stage.attempts reparse file larger = .ok (.failed final.failure file, trace) ∧
      trace.calls = final.trace.calls := by
  have hhere : ∀ stage : Stage, stage.IsStuck → ∀ larger, ∃ trace,
      stage.attempts reparse file larger = .ok (.failed stage.failure file, trace) ∧
        trace.calls = stage.trace.calls := by
    intro stage hstuck larger
    cases larger with
    | zero => exact ⟨stage.trace, rfl, rfl⟩
    | succ larger =>
      obtain ⟨behind, hcalls, hfailed⟩ := attempts_of_isStuck reparse file stage hstuck
      exact ⟨behind, hfailed larger, hcalls⟩
  induction h generalizing larger with
  | usedUp stage => exact hhere stage hstuck larger
  | stuck budget stage h => exact hhere stage hstuck larger
  | failed budget stage next final h hrest ih =>
    obtain ⟨larger, rfl⟩ : ∃ n, larger = n + 1 := ⟨larger - 1, by omega⟩
    rw [attempts_of_fails reparse file stage next h]
    exact ih larger (by omega) hstuck

end Attempts

end Stage

/-- A recovery that succeeds makes the same calls and returns the same result with every larger
budget.  So does one that ends at a stage where it is stuck; and every recovery that returns a
failure ends at a stage with that failure and those calls.  The parser may be any. -/
theorem recover_budget_mono (reparse : Reparse α) (source file : String) (failure : Failure)
    (budget larger : Int) (hle : budget ≤ larger) :
    (∀ analysis trace, recover reparse source failure budget file = .ok (analysis, trace) →
      analysis.success = true →
        recover reparse source failure larger file = .ok (analysis, trace)) ∧
    (∀ analysis trace, recover reparse source failure budget file = .ok (analysis, trace) →
      analysis.success = false →
        ∃ final, Stage.EndsAt reparse budget.toNat (.start source failure) final ∧
          analysis = .failed final.failure file ∧ trace.calls = final.trace.calls) ∧
    ∀ final, Stage.EndsAt reparse budget.toNat (.start source failure) final → final.IsStuck →
      ∃ trace behind,
        recover reparse source failure budget file =
          .ok (.failed final.failure file, trace) ∧
        recover reparse source failure larger file =
          .ok (.failed final.failure file, behind) ∧
        trace.calls = final.trace.calls ∧ behind.calls = final.trace.calls := by
  have hnat : budget.toNat ≤ larger.toNat := by omega
  refine ⟨fun analysis trace h hsuccess => ?_, fun analysis trace h hfailed => ?_,
    fun final hends hstuck => ?_⟩
  · exact Stage.attempts_success_mono reparse file _ _ hnat (.start source failure) _ _ h hsuccess
  · exact Stage.endsAt_of_failed reparse file _ (.start source failure) _ _ h hfailed
  · obtain ⟨trace, htrace, hcalls⟩ := Stage.attempts_of_endsAt reparse file _ _ le_rfl
      (.start source failure) final hends hstuck
    obtain ⟨behind, hbehind, hsame⟩ := Stage.attempts_of_endsAt reparse file _ _ hnat
      (.start source failure) final hends hstuck
    exact ⟨trace, behind, htrace, hbehind, hcalls, hsame⟩

/-- A parser that refuses a text with its second line masked, and points at the first line. -/
def refusesSecond : Reparse Unit := Replies.reparse fun _ text =>
  .quiet (if text = maskLine "a\nb" 2 then .failed (failureAtLine ['1']) "nofile"
    else .ok () "nofile")

/-- A parser that always points at the first line. -/
def refusesAll : Reparse Unit := Replies.reparse fun _ _ =>
  .quiet (.failed (failureAtLine ['1']) "nofile")

/-- A recovery that needs both of its attempts, and one that is stuck behind its first. -/
theorem recover_budget_mono_twoLines :
    (∃ trace, recover refusesSecond "a\nb" (failureAtLine ['2']) 2 "nofile" =
        .ok (⟨.ok (), [1, 2], "nofile"⟩, trace) ∧
      recover refusesSecond "a\nb" (failureAtLine ['2']) 7 "nofile" =
        .ok (⟨.ok (), [1, 2], "nofile"⟩, trace)) ∧
    ∃ trace behind,
      recover refusesAll "a\nb" (failureAtLine ['1']) 2 "nofile" =
        .ok (.failed (failureAtLine ['1']) "nofile", trace) ∧
      recover refusesAll "a\nb" (failureAtLine ['1']) 9 "nofile" =
        .ok (.failed (failureAtLine ['1']) "nofile", behind) ∧
      trace.calls = [maskLine "a\nb" 1] ∧ behind.calls = [maskLine "a\nb" 1] := by
  obtain ⟨hsuccess, -, -⟩ :=
    recover_budget_mono refusesSecond "a\nb" "nofile" (failureAtLine ['2']) 2 7 (by decide)
  obtain ⟨-, -, hstuck⟩ :=
    recover_budget_mono refusesAll "a\nb" "nofile" (failureAtLine ['1']) 2 9 (by decide)
  have hfails : (Stage.start "a\nb" (failureAtLine ['1'])).Fails refusesAll
      ⟨maskLine "a\nb" 1, failureAtLine ['1'], [1], ⟨[maskLine "a\nb" 1], []⟩⟩ :=
    .intro 1 _ _ _ _ rfl (by simp [Stage.start]) rfl rfl rfl
  have hpoints : Stage.IsStuck
      ⟨maskLine "a\nb" 1, failureAtLine ['1'], [1], ⟨[maskLine "a\nb" 1], []⟩⟩ :=
    .inr ⟨1, by simp, rfl⟩
  exact ⟨⟨_, rfl, hsuccess _ _ rfl rfl⟩,
    hstuck _ (.failed 1 _ _ _ hfails (.stuck 0 _ hpoints)) hpoints⟩

end LineScope
