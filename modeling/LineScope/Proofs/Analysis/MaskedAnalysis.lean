import LineScope.Proofs.Analysis.Escape
import LineScope.Proofs.Analysis.Rounds

/-!
# Recovery is analysis of the masked source

The parser of a recovery looks at nothing but the text of a call.  So what a recovery accepts is what
a plain analysis finds in the source masked at the recovered lines.  A line that is masked comes from
a failure of the parser on a masked text, or from a search above such a line; masking keeps the
number of lines, so it is a line of the source.
-/

namespace LineScope

open LineScope.Text

/-- The answers of the parser, which do not depend on earlier calls. -/
def parseReplies (file : String) : Replies Node := fun _ text =>
  let parsed := Grammar.parse text file
  ⟨⟨parsed.value, [], file⟩, parsed.records⟩

section Disciplined

variable {source file : String} {failure : Failure} {budget : Nat} {rounds : List (Round Node)}
  {analysis : Analysis Node}

theorem parse_of_mem_callsOf
    (h : Disciplined (parseReplies file) source file failure ∅ 0 budget rounds analysis)
    (call : Call Node) (hc : call ∈ callsOf rounds) :
    call.result = ⟨(Grammar.parse (maskedAt source call.lines) file).value, [], file⟩ := by
  obtain ⟨i, hi⟩ := List.getElem?_of_mem hc
  exact (h.replied i call hi).symm

theorem card_le_of_mem_callsOf {reply : Replies Node}
    (h : Disciplined reply source file failure ∅ 0 budget rounds analysis) (call : Call Node)
    (hc : call ∈ callsOf rounds) : call.lines.card ≤ budget := by
  obtain ⟨round, hround, hcall⟩ := List.mem_flatMap.mp hc
  obtain ⟨j, hj⟩ := List.getElem?_of_mem hround
  have hcard := h.card j round hj call hcall
  have hlength := (List.getElem?_eq_some_iff.mp hj).1
  have hle := h.rounds_le
  rw [Finset.card_empty] at hcard
  omega

theorem line_bounds_of_mem_callsOf
    (h : Disciplined (parseReplies file) source file failure ∅ 0 budget rounds analysis)
    (hfailure : (Grammar.parse source file).value = .error failure)
    (call : Call Node) (hc : call ∈ callsOf rounds) :
    ∀ line ∈ call.lines, 1 ≤ line ∧ line ≤ lineCount source.toList := by
  intro line hline
  rcases h.origin call hc line hline with hempty | hbounds | ⟨met, hmet, hpoints⟩
  · exact absurd hempty (Finset.notMem_empty line)
  · exact hbounds
  · rcases hmet with rfl | ⟨other, ho, hresult⟩
    · exact errorLine_bounds source file met line hfailure hpoints
    · rw [parse_of_mem_callsOf h other ho] at hresult
      have hbounds := errorLine_bounds _ file met line hresult hpoints
      rwa [lineCount_maskedAt] at hbounds

end Disciplined

/-- What a parse with recovery returns: what the parser finds in the source masked at some lines, or
a failure. -/
theorem parseRecovering_cases (budget : Int) (file source : String) (analysis : Analysis Node)
    (h : parseRecovering ⟨true, budget, file⟩ source = .ok analysis) :
    (∃ (lines : Finset Int) (node : Node), analysis = ⟨.ok node, lines.sort, file⟩ ∧
      (Grammar.parse (maskedAt source lines) file).value = .ok node ∧ lines.card ≤ budget.toNat ∧
      ∀ line ∈ lines, 1 ≤ line ∧ line ≤ lineCount source.toList) ∨
    ∃ failure, analysis = .failed failure file := by
  unfold parseRecovering at h
  split at h
  · rename_i node hnode
    cases h
    have hmasked : maskedAt source ∅ = source := by
      rw [maskedAt, Finset.sort_empty]
      rfl
    refine .inl ⟨∅, node, ?_, ?_, Nat.zero_le _, fun line hline => ?_⟩
    · rw [Finset.sort_empty, Analysis.ok]
    · rw [hmasked, hnode]
    · exact absurd hline (Finset.notMem_empty line)
  · rename_i failure hfailure
    obtain ⟨⟨found, trace⟩, hrecover, rfl⟩ := of_map_eq_ok _ _ _ h
    obtain ⟨rounds, _, hrounds⟩ := recover_rounds (parseReplies file) source failure budget file
      found trace hrecover
    cases hrounds.ends with
    | recovered failed last hcalls hfailed hlast =>
      have hmem : last ∈ callsOf rounds := by
        rw [hcalls]
        exact List.mem_append_right _ (List.mem_singleton_self _)
      have hresult := parse_of_mem_callsOf hrounds last hmem
      rw [hresult] at hlast ⊢
      cases hvalue : (Grammar.parse (maskedAt source last.lines) file).value with
      | error later =>
        rw [Analysis.success, hvalue] at hlast
        cases hlast
      | ok node =>
        exact .inl ⟨last.lines, node, rfl, hvalue, card_le_of_mem_callsOf hrounds last hmem,
          line_bounds_of_mem_callsOf hrounds hfailure last hmem⟩
    | gaveUp final hfailed hfinal hstop => exact .inr ⟨final, rfl⟩

/-- An analysis without recovery of a source that parses. -/
theorem analyze_plain (budget : Int) (file source : String) (node tree : Node) (metadata : Metadata)
    (hparse : (Grammar.parse source file).value = .ok node)
    (hbuild : Metadata.build node = .ok (tree, metadata)) :
    ∃ plain, analyze ⟨false, budget, file⟩ source = .ok plain ∧
      plain.value = .ok ⟨tree, metadata⟩ file := by
  have heq := analyze_eq ⟨false, budget, file⟩ source
  simp only [parseRecovering, hparse, bind, Except.bind, Analysis.walked, Analysis.ok, hbuild] at heq
  exact of_map_eq_ok _ _ _ heq

theorem of_walked_eq_ok (node : Node) (lines : List Int) (file : String) (result : Analysis Finding)
    (h : Analysis.walked ⟨.ok node, lines, file⟩ = .ok result) :
    ∃ tree metadata, Metadata.build node = .ok (tree, metadata) ∧
      result = ⟨.ok ⟨tree, metadata⟩, lines, file⟩ := by
  simp only [Analysis.walked] at h
  cases hbuild : Metadata.build node with
  | error error =>
    rw [hbuild] at h
    cases h
  | ok built =>
    rw [hbuild] at h
    exact ⟨built.1, built.2, rfl, (Except.ok.inj h).symm⟩

/-- What an analysis with recovery returns: what the parser and the walk make of the source masked at
some lines, or a failure. -/
theorem analyze_cases (budget : Int) (file source : String) (result : Logged (Analysis Finding))
    (h : analyze ⟨true, budget, file⟩ source = .ok result) :
    (∃ (lines : Finset Int) (node tree : Node) (metadata : Metadata),
      result.value = ⟨.ok ⟨tree, metadata⟩, lines.sort, file⟩ ∧
      (Grammar.parse (maskedAt source lines) file).value = .ok node ∧
      Metadata.build node = .ok (tree, metadata) ∧ lines.card ≤ budget.toNat ∧
      ∀ line ∈ lines, 1 ≤ line ∧ line ≤ lineCount source.toList) ∨
    ∃ failure, result.value = .failed failure file := by
  have heq := analyze_eq ⟨true, budget, file⟩ source
  rw [h] at heq
  obtain ⟨analysis, hparse, hwalked⟩ := ok_of_bind _ _ _ heq.symm
  rcases parseRecovering_cases budget file source analysis hparse with
    ⟨lines, node, rfl, hnode, hcard, hbounds⟩ | ⟨failure, rfl⟩
  · obtain ⟨tree, metadata, hbuild, hvalue⟩ := of_walked_eq_ok node lines.sort file result.value
      hwalked
    exact .inl ⟨lines, node, tree, metadata, hvalue, hnode, hbuild, hcard, hbounds⟩
  · exact .inr ⟨failure, (Except.ok.inj hwalked).symm⟩

/-- An analysis with recovery is the plain one if that succeeds.  Otherwise what it finds is what
the plain analysis finds in the source masked at the recovered lines, which are lines of the source,
at most as many as there are attempts; a failure has no such lines. -/
theorem analyze_masked (budget : Int) (file source : String) :
    (∀ plain, analyze ⟨false, budget, file⟩ source = .ok plain → plain.value.success = true →
      analyze ⟨true, budget, file⟩ source = .ok plain) ∧
    ∀ result, analyze ⟨true, budget, file⟩ source = .ok result →
      (∀ finding, result.value.outcome = .ok finding → result.value.recoveredLines ≠ [] →
        result.value.recoveredLines.Pairwise (· < ·) ∧
        (result.value.recoveredLines.length : Int) ≤ budget ∧
        (∀ line ∈ result.value.recoveredLines,
          1 ≤ line ∧ line ≤ (sourceLines source.toList).length) ∧
        ∀ order, order.Perm result.value.recoveredLines →
          ∃ plain, analyze ⟨false, budget, file⟩ (maskAll source order) = .ok plain ∧
            plain.value = .ok finding file) ∧
      (result.value.success = false →
        (∃ failure, result.value.outcome = .error failure) ∧ result.value.recoveredLines = []) := by
  refine ⟨fun plain hplain hsuccess => ?_, fun result hresult => ?_⟩
  · unfold analyze at hplain ⊢
    obtain ⟨first, hfirst, hrest⟩ := ok_of_bind _ _ _ hplain
    rw [hfirst]
    cases houtcome : first.value.outcome with
    | ok finding =>
      simp only [houtcome] at hrest
      simpa only [bind, Except.bind, houtcome] using hrest
    | error failure =>
      simp only [houtcome, Bool.false_eq_true, if_false] at hrest
      cases hrest
      rw [Analysis.success, houtcome] at hsuccess
      cases hsuccess
  · rcases analyze_cases budget file source result hresult with
      ⟨lines, node, tree, metadata, hvalue, hnode, hbuild, hcard, hbounds⟩ | ⟨failure, hvalue⟩
    · rw [hvalue]
      refine ⟨fun finding hfinding hlines => ⟨?_, ?_, ?_, ?_⟩, fun hfailed => ?_⟩
      · exact (Finset.sortedLT_sort lines).pairwise
      · dsimp only at hlines ⊢
        have hpos : 0 < lines.sort.length := List.length_pos_iff.mpr hlines
        rw [Finset.length_sort] at hpos ⊢
        omega
      · intro line hline
        rw [length_sourceLines]
        exact hbounds line ((Finset.mem_sort _).mp hline)
      · intro order horder
        cases hfinding
        rw [maskAll_perm source order _ horder]
        exact analyze_plain budget file _ node tree metadata hnode hbuild
      · cases hfailed
    · rw [hvalue]
      refine ⟨fun finding hfinding => ?_, fun _ => ⟨⟨failure, rfl⟩, rfl⟩⟩
      cases hfinding

theorem exists_ok_of_any {ε α : Type} (result : Except ε α) (holds : α → Bool)
    (h : result.toOption.any holds = true) : ∃ value, result = .ok value ∧ holds value = true := by
  cases result with
  | error e => cases h
  | ok value => exact ⟨value, rfl, h⟩

/-- A closing bracket without its opening one is recovered by its marker. -/
theorem analyze_masked_strayBracket :
    ∃ result finding, analyze ⟨true, 1, Grammar.defaultFile⟩ "]" = .ok result ∧
      result.value.outcome = .ok finding ∧ result.value.recoveredLines = [1] ∧
      ∃ plain, analyze ⟨false, 1, Grammar.defaultFile⟩ (maskAll "]" [1]) = .ok plain ∧
        plain.value = .ok finding Grammar.defaultFile := by
  obtain ⟨result, hresult, hok⟩ := exists_ok_of_any (analyze ⟨true, 1, Grammar.defaultFile⟩ "]")
    (fun result => result.value.outcome.toOption.isSome && result.value.recoveredLines == [1])
    (by decide +kernel)
  obtain ⟨hsome, hlines⟩ := Bool.and_eq_true_iff.mp hok
  obtain ⟨finding, hfinding, -⟩ := exists_ok_of_any result.value.outcome (fun _ => true)
    (by simpa using hsome)
  have hlines : result.value.recoveredLines = [1] := by simpa using hlines
  have hmasked := ((analyze_masked 1 Grammar.defaultFile "]").2 result hresult).1 finding
    hfinding (by rw [hlines]; exact List.cons_ne_nil _ _)
  rw [hlines] at hmasked
  exact ⟨result, finding, hresult, hfinding, hlines, hmasked.2.2.2 [1] (List.Perm.refl _)⟩

end LineScope
