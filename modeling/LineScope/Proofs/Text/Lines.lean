import LineScope.Text.Lines
import Mathlib.Data.List.Basic

/-!
# Counting lines

The lines of a source hold no line feeds, and there is one more of them than there are line feeds in
the source.  Lines that hold none are found again in the text that joins them, each of them behind as
many line feeds as its number says.
-/

namespace LineScope.Text

/-- The number of lines of a source. -/
def lineCount (source : List Char) : Nat := source.count '\n' + 1

theorem not_mem_feedLines (cs : List Char) : ∀ l ∈ feedLines cs, '\n' ∉ l := by
  induction cs with
  | nil => simp [feedLines]
  | cons c cs ih =>
    intro l hl
    by_cases hc : c = '\n'
    · rw [feedLines, if_pos hc] at hl
      rcases List.mem_cons.mp hl with rfl | hl
      · exact List.not_mem_nil
      · exact ih l hl
    · rw [feedLines, if_neg hc] at hl
      cases hlines : feedLines cs with
      | nil => exact absurd hlines (feedLines_ne_nil cs)
      | cons first rest =>
        rw [hlines] at ih hl
        rcases List.mem_cons.mp hl with rfl | hl
        · intro hm
          rcases List.mem_cons.mp hm with he | hm
          · exact hc he.symm
          · exact ih first List.mem_cons_self hm
        · exact ih l (List.mem_cons_of_mem _ hl)

theorem mem_of_mem_dropReturn (l : List Char) (c : Char) (h : c ∈ dropReturn l) : c ∈ l := by
  unfold dropReturn at h
  split at h
  · exact (List.dropLast_sublist l).subset h
  · exact h

theorem length_dropReturns (ls : List (List Char)) : (dropReturns ls).length = ls.length := by
  fun_induction dropReturns ls with
  | case1 => rfl
  | case2 l => rfl
  | case3 l m ls ih => simp only [List.length_cons] at ih ⊢; rw [ih]

theorem not_mem_dropReturns (ls : List (List Char)) (h : ∀ l ∈ ls, '\n' ∉ l) :
    ∀ l ∈ dropReturns ls, '\n' ∉ l := by
  fun_induction dropReturns ls with
  | case1 => exact h
  | case2 l => exact h
  | case3 l m ls ih =>
    intro line hl
    rcases List.mem_cons.mp hl with rfl | hl
    · exact fun hm => h l List.mem_cons_self (mem_of_mem_dropReturn l _ hm)
    · exact ih (fun other ho => h other (List.mem_cons_of_mem _ ho)) line hl

theorem not_mem_sourceLines (cs : List Char) : ∀ l ∈ sourceLines cs, '\n' ∉ l :=
  not_mem_dropReturns _ (not_mem_feedLines cs)

theorem length_feedLines_eq (cs : List Char) : (feedLines cs).length = lineCount cs :=
  length_feedLines cs

theorem length_sourceLines (cs : List Char) : (sourceLines cs).length = lineCount cs := by
  rw [sourceLines, length_dropReturns, length_feedLines_eq]

/-! ### Cutting joined lines -/

theorem feedLines_of_not_mem (l : List Char) (h : '\n' ∉ l) : feedLines l = [l] := by
  induction l with
  | nil => rfl
  | cons c cs ih =>
    have hc : c ≠ '\n' := fun he => h (he ▸ List.mem_cons_self)
    have hcs : '\n' ∉ cs := fun hm => h (List.mem_cons_of_mem _ hm)
    rw [feedLines, if_neg hc, ih hcs, consFirst]

theorem feedLines_append (l rest : List Char) (h : '\n' ∉ l) :
    feedLines (l ++ '\n' :: rest) = l :: feedLines rest := by
  induction l with
  | nil => rw [List.nil_append, feedLines, if_pos rfl]
  | cons c cs ih =>
    have hc : c ≠ '\n' := fun he => h (he ▸ List.mem_cons_self)
    have hcs : '\n' ∉ cs := fun hm => h (List.mem_cons_of_mem _ hm)
    rw [List.cons_append, feedLines, if_neg hc, ih hcs, consFirst]

theorem feedLines_joinLines (ls : List (List Char)) (hne : ls ≠ []) (h : ∀ l ∈ ls, '\n' ∉ l) :
    feedLines (joinLines ls) = ls := by
  fun_induction joinLines ls with
  | case1 => exact absurd rfl hne
  | case2 l => exact feedLines_of_not_mem l (h l List.mem_cons_self)
  | case3 l m ls ih =>
    rw [feedLines_append l _ (h l List.mem_cons_self),
      ih (List.cons_ne_nil _ _) fun other ho => h other (List.mem_cons_of_mem _ ho)]

theorem eq_of_feedLines_eq (cs ds : List Char) (h : feedLines cs = feedLines ds) : cs = ds := by
  rw [← joinLines_feedLines cs, h, joinLines_feedLines]

theorem getElem?_dropReturns (ls : List (List Char)) (i : Nat) :
    (dropReturns ls)[i]? = if i + 1 < ls.length then ls[i]?.map dropReturn else ls[i]? := by
  fun_induction dropReturns ls generalizing i with
  | case1 => simp
  | case2 l => simp
  | case3 l m ls ih =>
    cases i with
    | zero => simp
    | succ i => simpa using ih i

/-! ### Where a line stands -/

theorem getLast?_append_feed (first front : List Char)
    (h : front = [] ∨ front.getLast? = some '\n') :
    (first ++ '\n' :: front).getLast? = some '\n' := by
  rcases h with rfl | hlast
  · simp
  · rw [List.getLast?_append, List.getLast?_cons, hlast]
    rfl

theorem count_append_feed (first front : List Char) (h : '\n' ∉ first) :
    (first ++ '\n' :: front).count '\n' = front.count '\n' + 1 := by
  rw [List.count_append, List.count_eq_zero.mpr h, List.count_cons_self]
  omega

/-- A line stands between the text in front of it, which ends with a line feed, and the text behind. -/
theorem split_of_getElem?_feedLines (cs l : List Char) (i : Nat) (h : (feedLines cs)[i]? = some l) :
    ∃ front behind, cs = front ++ l ++ behind ∧ (front = [] ∨ front.getLast? = some '\n') ∧
      front.count '\n' = i := by
  induction i generalizing cs with
  | zero =>
    by_cases hm : '\n' ∈ cs
    · obtain ⟨first, rest, rfl, hfirst⟩ := List.eq_append_cons_of_mem hm
      rw [feedLines_append first rest hfirst] at h
      cases h
      exact ⟨[], '\n' :: rest, rfl, .inl rfl, rfl⟩
    · rw [feedLines_of_not_mem cs hm] at h
      cases h
      exact ⟨[], [], by simp, .inl rfl, rfl⟩
  | succ i ih =>
    by_cases hm : '\n' ∈ cs
    · obtain ⟨first, rest, rfl, hfirst⟩ := List.eq_append_cons_of_mem hm
      rw [feedLines_append first rest hfirst] at h
      obtain ⟨front, behind, rfl, hstart, hcount⟩ := ih rest h
      refine ⟨first ++ '\n' :: front, behind, by simp, .inr (getLast?_append_feed first front hstart),
        ?_⟩
      rw [count_append_feed first front hfirst, hcount]
    · rw [feedLines_of_not_mem cs hm] at h
      cases h

theorem feedLines_head (l rest : List Char) (h : '\n' ∉ l) :
    ∃ tail behind, rest = tail ++ behind ∧ (feedLines (l ++ rest))[0]? = some (l ++ tail) := by
  by_cases hm : '\n' ∈ rest
  · obtain ⟨first, behind, rfl, hfirst⟩ := List.eq_append_cons_of_mem hm
    refine ⟨first, _, rfl, ?_⟩
    rw [← List.append_assoc, feedLines_append]
    · rfl
    · rw [List.mem_append, not_or]
      exact ⟨h, hfirst⟩
  · refine ⟨rest, [], (List.append_nil _).symm, ?_⟩
    rw [feedLines_of_not_mem]
    · rfl
    · rw [List.mem_append, not_or]
      exact ⟨h, hm⟩

/-- A word without line feeds stands in one line. -/
theorem line_of_word (before word behind : List Char) (h : '\n' ∉ word) :
    ∃ front head tail rest, before = front ++ head ∧ behind = tail ++ rest ∧
      (front = [] ∨ front.getLast? = some '\n') ∧
      (feedLines (before ++ (word ++ behind)))[front.count '\n']? = some (head ++ (word ++ tail)) := by
  generalize hi : before.count '\n' = i
  induction i generalizing before with
  | zero =>
    have hbefore : '\n' ∉ before ++ word := by
      rw [List.mem_append, not_or]
      exact ⟨List.count_eq_zero.mp hi, h⟩
    obtain ⟨tail, rest, hrest, htail⟩ := feedLines_head (before ++ word) behind hbefore
    rw [List.append_assoc, List.append_assoc] at htail
    exact ⟨[], before, tail, rest, rfl, hrest, .inl rfl, htail⟩
  | succ i ih =>
    have hm : '\n' ∈ before := List.count_pos_iff.mp (by omega)
    obtain ⟨first, later, rfl, hfirst⟩ := List.eq_append_cons_of_mem hm
    rw [count_append_feed first later hfirst] at hi
    obtain ⟨front, head, tail, rest, rfl, hrest, hstart, hline⟩ := ih later (by omega)
    refine ⟨first ++ '\n' :: front, head, tail, rest, by simp, hrest,
      .inr (getLast?_append_feed first front hstart), ?_⟩
    rw [count_append_feed first front hfirst, List.append_assoc, List.cons_append,
      feedLines_append first _ hfirst]
    exact hline

end LineScope.Text
