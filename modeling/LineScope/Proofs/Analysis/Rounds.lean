import LineScope.Analysis.Recovery
import LineScope.Proofs.Analysis.Masking
import LineScope.Proofs.Number.Integer

/-!
# The calls of a recovery

A recovery runs in rounds.  A round masks the line that the current failure points at, on top of the
lines masked in the rounds before it; if that does not help, it masks each of the nearest code lines
above in its place.  Only the first mask of a round is kept for the next one.
-/

namespace LineScope

open LineScope.Number LineScope.Text

variable {α : Type}

/-- A parser that answers every call; an answer may depend on how many calls came before. -/
abbrev Replies (α : Type) := Nat → String → Logged (Analysis α)

/-- The same parser for a recovery. -/
def Replies.reparse (reply : Replies α) : Reparse α := fun before text => .ok (reply before text)

/-- A call of the parser: the lines that are masked in its text, and the result. -/
structure Call (α : Type) where
  lines : Finset Int
  result : Analysis α

/-- A round of calls: one at the line of the failure, and those at lines above it. -/
structure Round (α : Type) where
  first : Call α
  above : List (Call α)

def Round.calls (round : Round α) : List (Call α) := round.first :: round.above

def callsOf (rounds : List (Round α)) : List (Call α) := rounds.flatMap Round.calls

/-- Calls that got their results from a parser which had been called a number of times before. -/
def Replied (reply : Replies α) (source : String) (before : Nat) (calls : List (Call α)) : Prop :=
  ∀ i call, calls[i]? = some call →
    (reply (before + i) (maskedAt source call.lines)).value = call.result

/-- A failure that a recovery has met: the one that it starts from, or the result of a call. -/
def Met (failure : Failure) (rounds : List (Round α)) (met : Failure) : Prop :=
  met = failure ∨ ∃ call ∈ callsOf rounds, call.result.outcome = .error met

/-- How a recovery ends: with the result of the first call that succeeds, or, if none does, with the
failure of the first call of the last round. -/
inductive Ends (file : String) (failure : Failure) (masked : Finset Int) (budget : Nat)
    (rounds : List (Round α)) : Analysis α → Prop
  | recovered (failed : List (Call α)) (last : Call α)
      (hcalls : callsOf rounds = failed ++ [last])
      (hfailed : ∀ call ∈ failed, call.result.success = false)
      (hlast : last.result.success = true) :
      Ends file failure masked budget rounds { last.result with recoveredLines := last.lines.sort }
  | gaveUp (final : Failure)
      (hfailed : ∀ call ∈ callsOf rounds, call.result.success = false)
      (hfinal : rounds.getLast?.elim (final = failure) (·.first.result.outcome = .error final))
      (hstop : rounds.length = budget ∨ errorLine final = .ok none ∨
        ∃ line ∈ rounds.getLast?.elim masked (·.first.lines), errorLine final = .ok (some line)) :
      Ends file failure masked budget rounds (.failed final file)

/-- What the rounds of a recovery obey that starts with some lines masked. -/
structure Disciplined (reply : Replies α) (source file : String) (failure : Failure)
    (masked : Finset Int) (before budget : Nat) (rounds : List (Round α)) (analysis : Analysis α) :
    Prop where
  rounds_le : rounds.length ≤ budget
  above_le : ∀ round ∈ rounds, round.above.length ≤ lookBehind
  replied : Replied reply source before (callsOf rounds)
  card : ∀ j round, rounds[j]? = some round → ∀ call ∈ round.calls,
    call.lines.card = masked.card + j + 1
  nodup : ((callsOf rounds).map (·.lines)).Nodup
  origin : ∀ call ∈ callsOf rounds, ∀ line ∈ call.lines, line ∈ masked ∨
    (1 ≤ line ∧ line ≤ lineCount source.toList) ∨
      ∃ met, Met failure rounds met ∧ errorLine met = .ok (some line)
  ends : Ends file failure masked budget rounds analysis

/-! ### Replies -/

theorem replied_nil (reply : Replies α) (source : String) (before : Nat) :
    Replied reply source before [] := by
  intro i call h
  cases h

theorem replied_append (reply : Replies α) (source : String) (before : Nat)
    (first second : List (Call α)) (hfirst : Replied reply source before first)
    (hsecond : Replied reply source (before + first.length) second) :
    Replied reply source before (first ++ second) := by
  intro i call h
  by_cases hi : i < first.length
  · rw [List.getElem?_append_left hi] at h
    exact hfirst i call h
  · rw [List.getElem?_append_right (by omega)] at h
    have hcall := hsecond (i - first.length) call h
    rwa [show before + first.length + (i - first.length) = before + i by omega] at hcall

theorem replied_singleton (reply : Replies α) (source : String) (before : Nat) (call : Call α)
    (h : (reply before (maskedAt source call.lines)).value = call.result) :
    Replied reply source before [call] := by
  intro i other hi
  cases i with
  | zero =>
    cases hi
    exact h
  | succ i => cases hi

theorem replied_cons (reply : Replies α) (source : String) (before : Nat) (call : Call α)
    (calls : List (Call α)) (h : (reply before (maskedAt source call.lines)).value = call.result)
    (hcalls : Replied reply source (before + 1) calls) :
    Replied reply source before (call :: calls) :=
  replied_append reply source before [call] calls (replied_singleton reply source before call h)
    hcalls

/-! ### Lines above -/

theorem mem_codeLinesUpTo (lines : List (List Char)) (skipped : List Int) (n : Nat) (line : Int)
    (h : line ∈ codeLinesUpTo lines skipped n) : 1 ≤ line ∧ line ≤ n ∧ line ∉ skipped := by
  induction n with
  | zero => cases h
  | succ n ih =>
    rw [codeLinesUpTo] at h
    split at h
    · rename_i hcode
      rcases List.mem_cons.mp h with rfl | h
      · have hskipped : (n + 1 : Int) ∉ skipped := by
          have hright := (Bool.and_eq_true_iff.mp hcode).2
          simpa using hright
        exact ⟨by omega, by omega, hskipped⟩
      · obtain ⟨hl, hu, hs⟩ := ih h
        exact ⟨hl, by omega, hs⟩
    · obtain ⟨hl, hu, hs⟩ := ih h
      exact ⟨hl, by omega, hs⟩

theorem nodup_codeLinesUpTo (lines : List (List Char)) (skipped : List Int) (n : Nat) :
    (codeLinesUpTo lines skipped n).Nodup := by
  induction n with
  | zero => exact List.nodup_nil
  | succ n ih =>
    rw [codeLinesUpTo]
    split
    · refine List.nodup_cons.mpr ⟨fun hm => ?_, ih⟩
      have hbounds := mem_codeLinesUpTo lines skipped n _ hm
      omega
    · exact ih

/-- The lines above a failure that a round tries. -/
def linesAbove (source : String) (failure : Failure) (line : Int) (replaced : List Int) : List Int :=
  if opensLine source failure line then precedingCodeLines source line replaced else []

section Above

variable (source : String) (failure : Failure) (line : Int) (replaced : List Int)

theorem linesAbove_subset :
    ∀ earlier ∈ linesAbove source failure line replaced, 1 ≤ earlier ∧ earlier < line ∧
      earlier ≤ lineCount source.toList ∧ earlier ∉ replaced := by
  intro earlier h
  unfold linesAbove at h
  split at h
  · obtain ⟨hl, hu, hs⟩ := mem_codeLinesUpTo _ _ _ _ (List.mem_of_mem_take h)
    rw [length_sourceLines] at hu
    exact ⟨hl, by omega, by omega, hs⟩
  · cases h

theorem nodup_linesAbove : (linesAbove source failure line replaced).Nodup := by
  unfold linesAbove
  split
  · exact (nodup_codeLinesUpTo _ _ _).sublist (List.take_sublist _ _)
  · exact List.nodup_nil

theorem length_linesAbove : (linesAbove source failure line replaced).length ≤ lookBehind := by
  unfold linesAbove
  split
  · exact List.length_take_le _ _
  · exact Nat.zero_le _

end Above

/-! ### One search above -/

theorem call_reparse (reply : Replies α) (trace : Trace) (text : String) :
    ∃ behind, trace.call reply.reparse text =
        .ok ((reply trace.calls.length text).value, behind) ∧
      behind.calls = trace.calls ++ [text] :=
  ⟨_, rfl, rfl⟩

/-- The calls that a search among the lines above makes, and what it finds. -/
structure Searched (reply : Replies α) (source : String) (masked : Finset Int) (lines : List Int)
    (before : Nat) (tried : List (Call α)) (found : Option (Int × Analysis α)) : Prop where
  replied : Replied reply source before tried
  lines : tried.map (·.lines) <+: lines.map fun line => insert line masked
  ends : (found = none ∧ ∀ call ∈ tried, call.result.success = false) ∨
    ∃ failed last line, tried = failed ++ [last] ∧ found = some (line, last.result) ∧
      last.lines = insert line masked ∧ last.result.success = true ∧
        ∀ call ∈ failed, call.result.success = false

theorem tryLines_searched (reply : Replies α) (source : String) (masked : Finset Int)
    (lines : List Int) (trace : Trace) (h : ∀ line ∈ lines, line ∉ masked) :
    ∃ tried found next,
      tryLines reply.reparse (maskedAt source masked) lines trace = .ok (found, next) ∧
        next.calls = trace.calls ++ tried.map (fun call => maskedAt source call.lines) ∧
          Searched reply source masked lines trace.calls.length tried found := by
  induction lines generalizing trace with
  | nil =>
    refine ⟨[], none, trace, rfl, by simp, replied_nil _ _ _, List.nil_prefix, .inl ⟨rfl, ?_⟩⟩
    intro call hc
    cases hc
  | cons line lines ih =>
    have htext := maskLine_maskedAt source masked line (h line List.mem_cons_self)
    obtain ⟨behind, hcall, hcalls⟩ :=
      call_reparse reply trace (maskedAt source (insert line masked))
    obtain ⟨result, hreply⟩ : ∃ result,
        (reply trace.calls.length (maskedAt source (insert line masked))).value = result := ⟨_, rfl⟩
    rw [hreply] at hcall
    unfold tryLines
    simp only [htext, hcall, bind, Except.bind]
    by_cases hsuccess : result.success = true
    · rw [if_pos hsuccess]
      refine ⟨[⟨insert line masked, result⟩], some (line, result), behind, rfl, ?_, ?_⟩
      · rw [hcalls, List.map_singleton]
      · refine ⟨replied_singleton reply source _ _ hreply, ?_, .inr ⟨[], _, line, rfl, rfl, rfl,
          hsuccess, fun call hc => by cases hc⟩⟩
        rw [List.map_singleton, List.map_cons]
        exact List.prefix_append [_] _
    · rw [if_neg hsuccess]
      obtain ⟨tried, found, next, htry, hnext, hsearched⟩ :=
        ih behind fun other ho => h other (List.mem_cons_of_mem _ ho)
      have hlength : behind.calls.length = trace.calls.length + 1 := by
        rw [hcalls, List.length_append, List.length_singleton]
      rw [hlength] at hsearched
      refine ⟨⟨insert line masked, result⟩ :: tried, found, next, htry, ?_, ?_⟩
      · rw [hnext, hcalls, List.map_cons, List.append_assoc]
        rfl
      · refine ⟨replied_cons reply source _ _ _ hreply hsearched.replied, ?_, ?_⟩
        · rw [List.map_cons, List.map_cons]
          exact List.cons_prefix_cons.mpr ⟨rfl, hsearched.lines⟩
        · have hfirst : result.success = false := by simpa using hsuccess
          rcases hsearched.ends with ⟨hnone, hfailed⟩ |
            ⟨failed, last, found', htried, hfound, hlines, hlast, hfailed⟩
          · refine .inl ⟨hnone, fun call hc => ?_⟩
            rcases List.mem_cons.mp hc with rfl | hc
            · exact hfirst
            · exact hfailed call hc
          · refine .inr ⟨⟨insert line masked, result⟩ :: failed, last, found', ?_, hfound,
              hlines, hlast, fun call hc => ?_⟩
            · rw [htried, List.cons_append]
            · rcases List.mem_cons.mp hc with rfl | hc
              · exact hfirst
              · exact hfailed call hc

/-! ### One round -/

/-- A round at the line of a failure, with some lines masked before it. -/
structure IsRound (reply : Replies α) (source : String) (failure : Failure) (masked : Finset Int)
    (before : Nat) (line : Int) (lines : List Int) (round : Round α) : Prop where
  pointed : errorLine failure = .ok (some line)
  fresh : line ∉ masked
  lines_fresh : ∀ earlier ∈ lines, 1 ≤ earlier ∧ earlier < line ∧
    earlier ≤ lineCount source.toList ∧ earlier ∉ masked
  lines_nodup : lines.Nodup
  lines_le : lines.length ≤ lookBehind
  replied : Replied reply source before round.calls
  first : round.first.lines = insert line masked
  above : round.above.map (·.lines) <+: lines.map fun earlier => insert earlier masked

namespace IsRound

variable {reply : Replies α} {source : String} {failure : Failure} {masked : Finset Int}
  {before : Nat} {line : Int} {lines : List Int} {round : Round α}
  (h : IsRound reply source failure masked before line lines round)

include h

theorem above_le : round.above.length ≤ lookBehind := by
  have hle := h.above.length_le
  have hlines := h.lines_le
  rw [List.length_map, List.length_map] at hle
  omega

/-- Each call of a round masks one more line, which is a line above or that of the failure. -/
theorem mem_calls (call : Call α) (hc : call ∈ round.calls) :
    ∃ added, call.lines = insert added masked ∧ added ∉ masked ∧
      (added = line ∨ added ∈ lines) := by
  rcases List.mem_cons.mp hc with rfl | hc
  · exact ⟨line, h.first, h.fresh, .inl rfl⟩
  · have hmem := h.above.subset (List.mem_map_of_mem hc)
    obtain ⟨earlier, he, hlines⟩ := List.mem_map.mp hmem
    exact ⟨earlier, hlines.symm, (h.lines_fresh earlier he).2.2.2, .inr he⟩

theorem card (call : Call α) (hc : call ∈ round.calls) : call.lines.card = masked.card + 1 := by
  obtain ⟨added, hlines, hadded, _⟩ := h.mem_calls call hc
  rw [hlines, Finset.card_insert_of_notMem hadded]

theorem nodup : (round.calls.map (·.lines)).Nodup := by
  have hinsert : ∀ a b : Int, a ∉ masked → insert a masked = insert b masked → a = b := by
    intro a b ha he
    have hm : a ∈ insert b masked := he ▸ Finset.mem_insert_self a masked
    exact (Finset.mem_insert.mp hm).resolve_right ha
  have habove : (lines.map fun earlier => insert earlier masked).Nodup := by
    refine h.lines_nodup.map_on fun a ha b _ he => ?_
    exact hinsert a b (h.lines_fresh a ha).2.2.2 he
  rw [Round.calls, List.map_cons, List.nodup_cons]
  refine ⟨fun hm => ?_, habove.sublist h.above.sublist⟩
  obtain ⟨earlier, he, hlines⟩ := List.mem_map.mp (h.above.subset hm)
  rw [h.first] at hlines
  have hsame := hinsert line earlier h.fresh hlines.symm
  have hbelow := (h.lines_fresh earlier he).2.1
  omega

theorem origin (rounds : List (Round α)) (call : Call α) (hc : call ∈ round.calls) :
    ∀ found ∈ call.lines, found ∈ masked ∨
      (1 ≤ found ∧ found ≤ lineCount source.toList) ∨
        ∃ met, Met failure (round :: rounds) met ∧ errorLine met = .ok (some found) := by
  intro found hf
  obtain ⟨added, hlines, _, hadded⟩ := h.mem_calls call hc
  rw [hlines] at hf
  rcases Finset.mem_insert.mp hf with rfl | hf
  · rcases hadded with rfl | hadded
    · exact .inr (.inr ⟨failure, .inl rfl, h.pointed⟩)
    · have hbounds := h.lines_fresh found hadded
      exact .inr (.inl ⟨hbounds.1, hbounds.2.2.1⟩)
  · exact .inl hf

/-- A round that succeeds ends the recovery. -/
theorem recovered (file : String) (budget : Nat) (failed : List (Call α)) (last : Call α)
    (hcalls : round.calls = failed ++ [last])
    (hfailed : ∀ call ∈ failed, call.result.success = false) (hlast : last.result.success = true) :
    Disciplined reply source file failure masked before (budget + 1) [round]
      { last.result with recoveredLines := last.lines.sort } := by
  have hall : callsOf [round] = round.calls := by simp [callsOf]
  refine ⟨by simp, ?_, hall ▸ h.replied, ?_, hall ▸ h.nodup, ?_,
    .recovered failed last (hall.trans hcalls) hfailed hlast⟩
  · intro other ho
    rw [List.mem_singleton.mp ho]
    exact h.above_le
  · intro j other hj call hc
    cases j with
    | zero =>
      cases hj
      exact h.card call hc
    | succ j => cases hj
  · intro call hc
    exact h.origin [] call (hall ▸ hc)

omit h in
theorem met_cons {rounds : List (Round α)} {next met : Failure}
    (hnext : round.first.result.outcome = .error next) (hmet : Met next rounds met) :
    Met failure (round :: rounds) met := by
  rcases hmet with rfl | ⟨call, hc, hcall⟩
  · exact .inr ⟨round.first, List.mem_append_left _ List.mem_cons_self, hnext⟩
  · exact .inr ⟨call, List.mem_append_right _ hc, hcall⟩

/-- A failed round in front changes nothing in how a recovery ends. -/
theorem ends_cons (file : String) (budget : Nat) (rounds : List (Round α)) (analysis : Analysis α)
    (next : Failure) (hnext : round.first.result.outcome = .error next)
    (hfailed : ∀ call ∈ round.calls, call.result.success = false)
    (hrest : Ends file next (insert line masked) budget rounds analysis) :
    Ends file failure masked (budget + 1) (round :: rounds) analysis := by
  have hall : callsOf (round :: rounds) = round.calls ++ callsOf rounds := List.flatMap_cons
  cases hrest with
  | recovered failed last hcalls hearlier hlast =>
    refine .recovered (round.calls ++ failed) last ?_ ?_ hlast
    · rw [hall, hcalls, List.append_assoc]
    · intro call hc
      rcases List.mem_append.mp hc with hc | hc
      · exact hfailed call hc
      · exact hearlier call hc
  | gaveUp final hlater hfinal hstop =>
    have hcalls : ∀ call ∈ callsOf (round :: rounds), call.result.success = false := by
      intro call hc
      rw [hall] at hc
      rcases List.mem_append.mp hc with hc | hc
      · exact hfailed call hc
      · exact hlater call hc
    have hlength : rounds.length = budget → (round :: rounds).length = budget + 1 := by
      intro he
      rw [List.length_cons, he]
    cases rounds with
    | nil =>
      -- the failed round is the last one, and its first call has masked the line
      rw [List.getLast?_nil, Option.elim_none] at hfinal hstop
      rw [← hfinal] at hnext
      refine .gaveUp final hcalls hnext (hstop.imp hlength (.imp id ?_))
      rintro ⟨found, hf, hline⟩
      refine ⟨found, ?_, hline⟩
      show found ∈ round.first.lines
      rw [h.first]
      exact hf
    | cons other rounds =>
      obtain ⟨latest, hlatest⟩ : ∃ latest, (other :: rounds).getLast? = some latest :=
        ⟨_, List.getLast?_eq_some_getLast (List.cons_ne_nil _ _)⟩
      have hsame : (round :: other :: rounds).getLast? = some latest := by
        rw [List.getLast?_cons_cons, hlatest]
      rw [hlatest, Option.elim_some] at hfinal hstop
      refine .gaveUp final hcalls ?_ (hstop.imp hlength (.imp id ?_))
      · rw [hsame]
        exact hfinal
      · rw [hsame]
        exact id

/-- A round that fails is followed by the rounds from its first mask on. -/
theorem followed (file : String) (budget : Nat) (rounds : List (Round α)) (analysis : Analysis α)
    (next : Failure) (hnext : round.first.result.outcome = .error next)
    (hfailed : ∀ call ∈ round.calls, call.result.success = false)
    (hrest : Disciplined reply source file next (insert line masked)
      (before + round.calls.length) budget rounds analysis) :
    Disciplined reply source file failure masked before (budget + 1) (round :: rounds)
      analysis := by
  have hcard : (insert line masked).card = masked.card + 1 :=
    Finset.card_insert_of_notMem h.fresh
  have hall : callsOf (round :: rounds) = round.calls ++ callsOf rounds := List.flatMap_cons
  refine ⟨?_, ?_, ?_, ?_, ?_, ?_, ?_⟩
  · have hle := hrest.rounds_le
    rw [List.length_cons]
    omega
  · intro other ho
    rcases List.mem_cons.mp ho with rfl | ho
    · exact h.above_le
    · exact hrest.above_le other ho
  · rw [hall]
    exact replied_append reply source before _ _ h.replied hrest.replied
  · intro j other hj call hc
    cases j with
    | zero =>
      cases hj
      exact h.card call hc
    | succ j =>
      have hlater := hrest.card j other (by simpa using hj) call hc
      omega
  · rw [hall, List.map_append, List.nodup_append]
    refine ⟨h.nodup, hrest.nodup, ?_⟩
    -- the calls of later rounds mask more lines
    intro first hf second hs he
    obtain ⟨call, hc, rfl⟩ := List.mem_map.mp hf
    obtain ⟨later, hl, rfl⟩ := List.mem_map.mp hs
    obtain ⟨other, ho, hl⟩ := List.mem_flatMap.mp hl
    obtain ⟨j, hj⟩ := List.getElem?_of_mem ho
    have hearly := h.card call hc
    have hlate := hrest.card j other hj later hl
    rw [he] at hearly
    omega
  · intro call hc found hf
    rw [hall] at hc
    rcases List.mem_append.mp hc with hc | hc
    · exact h.origin rounds call hc found hf
    · rcases hrest.origin call hc found hf with hm | hbounds | ⟨met, hmet, hline⟩
      · rcases Finset.mem_insert.mp hm with rfl | hm
        · exact .inr (.inr ⟨failure, .inl rfl, h.pointed⟩)
        · exact .inl hm
      · exact .inr (.inl hbounds)
      · exact .inr (.inr ⟨met, met_cons hnext hmet, hline⟩)
  · exact h.ends_cons file budget rounds analysis next hnext hfailed hrest.ends

end IsRound

/-! ### All rounds -/

theorem ascending_eq_sort (lines : List Int) : ascending lines = lines.toFinset.sort := by
  have hascending := pairwise_ascending lines
  have hperm : (ascending lines).Perm lines.toFinset.sort := by
    refine (List.perm_ext_iff_of_nodup (hascending.imp ne_of_lt) (Finset.sort_nodup _ _)).mpr ?_
    intro line
    rw [mem_ascending, Finset.mem_sort, List.mem_toFinset]
  exact hperm.eq_of_pairwise' (hascending.imp le_of_lt) (Finset.pairwise_sort _ _)

theorem recoveredWith_eq (analysis : Analysis α) (lines : List Int) (file : String)
    (trace : Trace) :
    ∃ noted, recoveredWith analysis lines file trace =
        ({ analysis with recoveredLines := lines.toFinset.sort }, noted) ∧
      noted.calls = trace.calls := by
  rw [← ascending_eq_sort]
  exact ⟨_, rfl, rfl⟩

theorem disciplined_nil (reply : Replies α) (source file : String) (failure : Failure)
    (masked : Finset Int) (before budget : Nat)
    (hstop : budget = 0 ∨ errorLine failure = .ok none ∨
      ∃ line ∈ masked, errorLine failure = .ok (some line)) :
    Disciplined reply source file failure masked before budget [] (.failed failure file) := by
  refine ⟨Nat.zero_le _, ?_, replied_nil reply source before, ?_, List.nodup_nil, ?_, ?_⟩
  · intro round hr
    cases hr
  · intro j round hj
    cases hj
  · intro call hc
    cases hc
  · refine .gaveUp failure (fun call hc => by cases hc) rfl ?_
    rcases hstop with hzero | hstop
    · exact .inl hzero.symm
    · exact .inr hstop

theorem isRound (reply : Replies α) (source : String) (failure : Failure) (replaced : List Int)
    (before : Nat) (line : Int) (result : Analysis α) (tried : List (Call α))
    (hline : errorLine failure = .ok (some line)) (hfresh : line ∉ replaced.toFinset)
    (hreply : (reply before (maskedAt source (insert line replaced.toFinset))).value = result)
    (hreplied : Replied reply source (before + 1) tried)
    (hlines : tried.map (·.lines) <+:
      (linesAbove (maskedAt source replaced.toFinset) failure line replaced).map fun earlier =>
        insert earlier replaced.toFinset) :
    IsRound reply source failure replaced.toFinset before line
      (linesAbove (maskedAt source replaced.toFinset) failure line replaced)
      ⟨⟨insert line replaced.toFinset, result⟩, tried⟩ := by
  refine ⟨hline, hfresh, ?_, nodup_linesAbove _ _ _ _, length_linesAbove _ _ _ _,
    replied_cons reply source before _ tried hreply hreplied, rfl, hlines⟩
  intro earlier he
  have hbounds := linesAbove_subset _ _ _ _ earlier he
  rw [lineCount_maskedAt] at hbounds
  simpa using hbounds

/-- What one attempt can do: find a line number that cannot be read, stop without a call, succeed, or
fail and hand on to the next attempt. -/
inductive Attempt (reply : Replies α) (source file : String) (budget : Nat) (failure : Failure)
    (replaced : List Int) (trace : Trace) (result : Except Escape (Analysis α × Trace)) : Prop
  | unreadable (fault : Number.Fault) (hline : errorLine failure = .error fault)
      (hresult : result = .error (.numeral fault))
  | stopped (final : Trace) (hfinal : final.calls = trace.calls)
      (hstop : errorLine failure = .ok none ∨
        ∃ line ∈ replaced.toFinset, errorLine failure = .ok (some line))
      (hresult : result = .ok (.failed failure file, final))
  | recovered (line : Int) (lines : List Int) (round : Round α) (failed : List (Call α))
      (last : Call α) (final : Trace)
      (hround : IsRound reply source failure replaced.toFinset trace.calls.length line lines round)
      (hcalls : round.calls = failed ++ [last])
      (hfailed : ∀ call ∈ failed, call.result.success = false)
      (hlast : last.result.success = true)
      (hfinal : final.calls =
        trace.calls ++ round.calls.map fun call => maskedAt source call.lines)
      (hresult : result = .ok ({ last.result with recoveredLines := last.lines.sort }, final))
  | failed (line : Int) (lines : List Int) (round : Round α) (next : Failure) (behind : Trace)
      (hround : IsRound reply source failure replaced.toFinset trace.calls.length line lines round)
      (hnext : round.first.result.outcome = .error next)
      (hfailed : ∀ call ∈ round.calls, call.result.success = false)
      (hbehind : behind.calls =
        trace.calls ++ round.calls.map fun call => maskedAt source call.lines)
      (hresult : result = attempts reply.reparse file budget
        (maskedAt source (line :: replaced).toFinset) next (line :: replaced) behind)

section Attempts

variable (reply : Replies α) (source file : String) (budget : Nat) (failure : Failure)
  (replaced : List Int) (trace : Trace)

theorem attempt_at_line (line : Int) (hline : errorLine failure = .ok (some line))
    (hfresh : line ∉ replaced) :
    Attempt reply source file budget failure replaced trace
      (attempts reply.reparse file (budget + 1) (maskedAt source replaced.toFinset) failure replaced
        trace) := by
  have hmasked : line ∉ replaced.toFinset := by simpa using hfresh
  have hinsert : insert line replaced.toFinset = (line :: replaced).toFinset := by simp
  have htext := maskLine_maskedAt source replaced.toFinset line hmasked
  obtain ⟨behind, hcall, hcalls⟩ :=
    call_reparse reply trace (maskedAt source (insert line replaced.toFinset))
  obtain ⟨result, hreply⟩ : ∃ result, (reply trace.calls.length
      (maskedAt source (insert line replaced.toFinset))).value = result := ⟨_, rfl⟩
  have hlength : behind.calls.length = trace.calls.length + 1 := by
    rw [hcalls, List.length_append, List.length_singleton]
  rw [hreply] at hcall
  unfold attempts
  rw [hline]
  simp only [Except.mapError, bind, Except.bind]
  rw [if_neg (by simpa using hfresh), htext, hcall]
  dsimp only
  cases houtcome : result.outcome with
  | ok value =>
    have hround := isRound reply source failure replaced trace.calls.length line result [] hline
      hmasked hreply (replied_nil reply source _) List.nil_prefix
    have hsuccess : result.success = true := by
      rw [Analysis.success, houtcome]
      rfl
    obtain ⟨noted, hnoted, hsame⟩ := recoveredWith_eq result (line :: replaced) file behind
    refine .recovered line _ _ [] _ noted hround rfl (fun call hc => by cases hc) hsuccess
      (hsame.trans hcalls) ?_
    dsimp only
    rw [hnoted, ← hinsert]
    rfl
  | error later =>
    obtain ⟨tried, found, next, htry, hnext, hsearched⟩ := tryLines_searched reply source
      replaced.toFinset (linesAbove (maskedAt source replaced.toFinset) failure line replaced)
      behind fun earlier he => by simpa using (linesAbove_subset _ _ _ _ earlier he).2.2.2
    rw [hlength] at hsearched
    have hround := isRound reply source failure replaced trace.calls.length line result tried hline
      hmasked hreply hsearched.replied hsearched.lines
    have hfirst : result.success = false := by
      rw [Analysis.success, houtcome]
      rfl
    have hall : next.calls = trace.calls ++
        (⟨insert line replaced.toFinset, result⟩ :: tried).map fun call =>
          maskedAt source call.lines := by
      rw [hnext, hcalls, List.append_assoc]
      rfl
    rw [linesAbove] at htry
    dsimp only
    rw [htry]
    rcases hsearched.ends with ⟨rfl, hothers⟩ |
      ⟨failed, last, earlier, rfl, rfl, hlast, hsuccess, hothers⟩
    · refine .failed line _ _ later next hround houtcome (fun call hc => ?_) hall ?_
      · rcases List.mem_cons.mp hc with rfl | hc
        · exact hfirst
        · exact hothers call hc
      · rw [hinsert]
    · obtain ⟨noted, hnoted, hsame⟩ :=
        recoveredWith_eq last.result (earlier :: replaced) file next
      refine .recovered line _ _ (⟨insert line replaced.toFinset, result⟩ :: failed) last noted
        hround rfl (fun call hc => ?_) hsuccess (hsame.trans hall) ?_
      · rcases List.mem_cons.mp hc with rfl | hc
        · exact hfirst
        · exact hothers call hc
      · dsimp only
        rw [hnoted, hlast, List.toFinset_cons]
        rfl

/-- The step lemma: what the first of several attempts does. -/
theorem attempt_cases :
    Attempt reply source file budget failure replaced trace
      (attempts reply.reparse file (budget + 1) (maskedAt source replaced.toFinset) failure replaced
        trace) := by
  cases hline : errorLine failure with
  | error fault =>
    refine .unreadable fault hline ?_
    rw [attempts, hline]
    rfl
  | ok line? =>
    cases line? with
    | none =>
      refine .stopped (trace.note .debug (file ++ ": no line in error, giving up recovery")) rfl
        (.inl hline) ?_
      rw [attempts, hline]
      rfl
    | some line =>
      by_cases hreplaced : replaced.contains line = true
      · refine .stopped (trace.note .debug (file ++ ": line " ++ toString line ++
          " already replaced, giving up recovery")) rfl
          (.inr ⟨line, by simpa using hreplaced, hline⟩) ?_
        rw [attempts, hline]
        simp only [Except.mapError, bind, Except.bind, if_pos hreplaced]
        rfl
      · exact attempt_at_line reply source file budget failure replaced trace line hline
          (by simpa using hreplaced)

/-- The run lemma: with some lines masked, all rounds that follow are disciplined. -/
theorem attempts_disciplined (analysis : Analysis α) (final : Trace)
    (h : attempts reply.reparse file budget (maskedAt source replaced.toFinset) failure replaced
      trace = .ok (analysis, final)) :
    ∃ rounds, final.calls = trace.calls ++ (callsOf rounds).map (fun call =>
        maskedAt source call.lines) ∧
      Disciplined reply source file failure replaced.toFinset trace.calls.length budget rounds
        analysis := by
  induction budget generalizing failure replaced trace with
  | zero =>
    cases h
    exact ⟨[], by simp [callsOf], disciplined_nil _ _ _ _ _ _ _ (.inl rfl)⟩
  | succ budget ih =>
    cases attempt_cases reply source file budget failure replaced trace with
    | unreadable fault hline hresult =>
      rw [h] at hresult
      cases hresult
    | stopped final hfinal hstop hresult =>
      cases h.symm.trans hresult
      exact ⟨[], by simp [callsOf, hfinal], disciplined_nil _ _ _ _ _ _ _ (.inr hstop)⟩
    | recovered line lines round failed last final hround hcalls hfailed hlast hfinal hresult =>
      cases h.symm.trans hresult
      refine ⟨[round], ?_, hround.recovered file budget failed last hcalls hfailed hlast⟩
      simpa [callsOf] using hfinal
    | failed line lines round next behind hround hnext hfailed hbehind hresult =>
      obtain ⟨rounds, hfinal, hrounds⟩ := ih next (line :: replaced) behind (hresult.symm.trans h)
      have hlength : behind.calls.length = trace.calls.length + round.calls.length := by
        rw [hbehind, List.length_append, List.length_map]
      rw [hlength, List.toFinset_cons] at hrounds
      refine ⟨round :: rounds, ?_, hround.followed file budget rounds analysis next hnext hfailed
        hrounds⟩
      rw [hfinal, hbehind, callsOf, callsOf, List.flatMap_cons, List.map_append, List.append_assoc]

/-- A recovery returns unless it meets a failure whose line number cannot be read. -/
theorem attempts_escape (escape : Escape)
    (h : attempts reply.reparse file budget (maskedAt source replaced.toFinset) failure replaced
      trace = .error escape) :
    ∃ met fault, escape = .numeral fault ∧ errorLine met = .error fault ∧
      (met = failure ∨ ∃ before text, (reply before text).value.outcome = .error met) := by
  induction budget generalizing failure replaced trace with
  | zero => cases h
  | succ budget ih =>
    cases attempt_cases reply source file budget failure replaced trace with
    | unreadable fault hline hresult =>
      cases h.symm.trans hresult
      exact ⟨failure, fault, rfl, hline, .inl rfl⟩
    | stopped final hfinal hstop hresult => cases h.symm.trans hresult
    | recovered line lines round failed last final hround hcalls hfailed hlast hfinal hresult =>
      cases h.symm.trans hresult
    | failed line lines round next behind hround hnext hfailed hbehind hresult =>
      obtain ⟨met, fault, rfl, hline, hmet⟩ :=
        ih next (line :: replaced) behind (hresult.symm.trans h)
      refine ⟨met, fault, rfl, hline, .inr ?_⟩
      rcases hmet with rfl | hmet
      · exact ⟨_, _, (congrArg Analysis.outcome (hround.replied 0 round.first rfl)).trans hnext⟩
      · exact hmet

end Attempts

/-! ### A whole recovery -/

theorem length_callsOf (rounds : List (Round α))
    (h : ∀ round ∈ rounds, round.above.length ≤ lookBehind) :
    (callsOf rounds).length ≤ 3 * rounds.length := by
  induction rounds with
  | nil => exact Nat.zero_le _
  | cons round rounds ih =>
    have hrest := ih fun other ho => h other (List.mem_cons_of_mem _ ho)
    have hround := h round List.mem_cons_self
    rw [callsOf, List.flatMap_cons, List.length_append, Round.calls, List.length_cons,
      List.length_cons]
    rw [callsOf] at hrest
    rw [lookBehind] at hround
    omega

theorem recover_rounds (reply : Replies α) (source : String) (failure : Failure) (budget : Int)
    (file : String) (analysis : Analysis α) (trace : Trace)
    (h : recover reply.reparse source failure budget file = .ok (analysis, trace)) :
    ∃ rounds : List (Round α),
      trace.calls = (callsOf rounds).map (fun call => maskedAt source call.lines) ∧
        Disciplined reply source file failure ∅ 0 budget.toNat rounds analysis := by
  have hsource : maskedAt source ([] : List Int).toFinset = source := by simp [maskedAt, maskAll]
  rw [recover, ← hsource] at h
  exact attempts_disciplined reply source file budget.toNat failure [] .start analysis trace h

/-- The calls of a recovery with any parser.  It returns unless it meets a failure whose line number
cannot be read; when it returns, its calls are those of disciplined rounds, at most three for each
attempt. -/
theorem recover_disciplined (reply : Replies α) (source : String) (failure : Failure) (budget : Int)
    (file : String) :
    (∀ escape, recover reply.reparse source failure budget file = .error escape →
      ∃ met fault, escape = .numeral fault ∧ errorLine met = .error fault ∧
        (met = failure ∨ ∃ before text, (reply before text).value.outcome = .error met)) ∧
    ∀ analysis trace, recover reply.reparse source failure budget file = .ok (analysis, trace) →
      ∃ rounds : List (Round α),
        trace.calls = (callsOf rounds).map (fun call => maskedAt source call.lines) ∧
        trace.calls.length ≤ 3 * budget.toNat ∧
        Disciplined reply source file failure ∅ 0 budget.toNat rounds analysis := by
  refine ⟨fun escape h => ?_, fun analysis trace h => ?_⟩
  · have hsource : maskedAt source ([] : List Int).toFinset = source := by
      simp [maskedAt, maskAll]
    rw [recover, ← hsource] at h
    exact attempts_escape reply source file budget.toNat failure [] .start escape h
  · obtain ⟨rounds, hcalls, hrounds⟩ :=
      recover_rounds reply source failure budget file analysis trace h
    refine ⟨rounds, hcalls, ?_, hrounds⟩
    have hlength := length_callsOf rounds hrounds.above_le
    have hle := hrounds.rounds_le
    rw [hcalls, List.length_map]
    omega

/-- A failure whose message names a line in digits. -/
def failureAtLine (digits : List Char) : Failure :=
  .plain (.parse none "nofile") (some syntaxErrorCode) (String.ofList ("line ".toList ++ digits)) none

theorem errorLine_failureAtLine (digits : List Char) (h : ∀ c ∈ digits, c.isDigit = true)
    (hlimit : digitLimit < digits.length) :
    errorLine (failureAtLine digits) = .error (.tooLong digits.length) := by
  have htake : digits.takeWhile isDecimal = digits :=
    List.takeWhile_eq_self_iff.mpr fun c hc => isDecimal_of_isDigit c (h c hc)
  have hne : digits.isEmpty = false := by
    rw [List.isEmpty_eq_false_iff, ← List.length_pos_iff]
    omega
  have hfound : lineDigits? ("line ".toList ++ digits) = some digits := by
    show (if isSpace ' ' && !(digits.takeWhile isDecimal).isEmpty then
      some (digits.takeWhile isDecimal) else none).or _ = some digits
    rw [htake, hne]
    rfl
  have hcarried : carriedLine? (failureAtLine digits) = none := rfl
  have hmessage : (failureAtLine digits).message = String.ofList ("line ".toList ++ digits) := rfl
  have hfilled : (failureAtLine digits).message.isEmpty = false := by simp [hmessage]
  rw [errorLine, hcarried]
  dsimp only
  rw [hfilled, hmessage]
  simp only [Bool.false_eq_true, if_false, String.toList_ofList, hfound, readDigits,
    readInt_of_long digits h hlimit]
  rfl

/-- A failure that names a line in too many digits ends a recovery without a result. -/
theorem recover_escapes_longNumeral :
    ¬ ∃ result, recover (Replies.reparse fun _ _ => .quiet (.ok () "nofile")) "a"
      (failureAtLine (List.replicate 4301 '1')) 1 "nofile" = .ok result := by
  have hline := errorLine_failureAtLine (List.replicate 4301 '1')
    (fun c hc => by rw [List.eq_of_mem_replicate hc]; rfl)
    (by rw [List.length_replicate, digitLimit]; omega)
  rintro ⟨result, hresult⟩
  rw [recover, show (1 : Int).toNat = 0 + 1 from rfl, attempts, hline] at hresult
  cases hresult

end LineScope
