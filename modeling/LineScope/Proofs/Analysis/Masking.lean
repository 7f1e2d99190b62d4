import LineScope.Analysis.Marker
import LineScope.Proofs.Number.Integer
import LineScope.Proofs.Text.Lines
import Mathlib

/-!
# Masked sources

Masking cuts a source into its lines and puts them together again, so a second mask meets the lines
that the first one has left.  Whatever the order of the masks, a line of the result is its marker if
it was masked.  Any other line loses one carriage return at its end to each mask, and the last line
none.
-/

namespace LineScope

open LineScope.Text

/-! ### The text of a marker -/

theorem not_mem_markerText (line : Int) : '\n' ∉ (markerText line).toList := by
  have hnumber : '\n' ∉ (toString line).toList := fun h =>
    absurd (Number.isIntegral_of_mem_toString line h) (by decide)
  simp only [markerText, markerName, markerStart, String.toList_append, List.mem_append, not_or]
  exact ⟨⟨by decide, ⟨by decide, hnumber⟩, by decide⟩, by decide⟩

theorem dropReturn_markerText (line : Int) :
    dropReturn (markerText line).toList = (markerText line).toList := by
  have hlast : (markerText line).toList.getLast? = some ')' := by
    rw [markerText, String.toList_append, List.getLast?_append]
    rfl
  rw [dropReturn, hlast, if_neg (by decide)]

/-! ### One mask -/

theorem sourceLines_ne_nil (cs : List Char) : sourceLines cs ≠ [] := by
  intro he
  have hlength := length_sourceLines cs
  rw [he, lineCount, List.length_nil] at hlength
  omega

theorem feedLines_maskLine (source : String) (line : Int) :
    feedLines (maskLine source line).toList =
      if 1 ≤ line ∧ line ≤ (sourceLines source.toList).length then
        (sourceLines source.toList).set (line.toNat - 1) (markerText line).toList
      else sourceLines source.toList := by
  have hne := sourceLines_ne_nil source.toList
  have hfree := not_mem_sourceLines source.toList
  unfold maskLine
  dsimp only
  rw [String.toList_ofList]
  split
  · refine feedLines_joinLines _ (fun he => hne (by simpa using he)) fun l hl => ?_
    rcases List.mem_or_eq_of_mem_set hl with hl | rfl
    · exact hfree l hl
    · exact not_mem_markerText line
  · exact feedLines_joinLines _ hne hfree

theorem lineCount_maskLine (source : String) (line : Int) :
    lineCount (maskLine source line).toList = lineCount source.toList := by
  rw [← length_feedLines_eq, feedLines_maskLine]
  split
  · rw [List.length_set, length_sourceLines]
  · rw [length_sourceLines]

/-- What a mask leaves of a line that it does not replace. -/
def trimmedLine (count masks i : Nat) (l : List Char) : List Char :=
  if i + 1 < count then dropReturn^[masks] l else l

theorem getElem?_maskLine (source : String) (line : Int) (i : Nat) (l : List Char)
    (h : (feedLines source.toList)[i]? = some l) :
    (feedLines (maskLine source line).toList)[i]? =
      some (if line = i + 1 then (markerText line).toList
        else trimmedLine (lineCount source.toList) 1 i l) := by
  have hi : i < lineCount source.toList := by
    rw [← length_feedLines_eq]
    exact (List.getElem?_eq_some_iff.mp h).1
  have hkept : (sourceLines source.toList)[i]? =
      some (trimmedLine (lineCount source.toList) 1 i l) := by
    rw [sourceLines, getElem?_dropReturns, h, length_feedLines_eq, trimmedLine]
    split <;> rfl
  rw [feedLines_maskLine, length_sourceLines]
  by_cases hline : line = i + 1
  · have hrange : 1 ≤ line ∧ line ≤ lineCount source.toList := by omega
    have hindex : line.toNat - 1 = i := by omega
    have hlength : i < (sourceLines source.toList).length := by rw [length_sourceLines]; exact hi
    rw [if_pos hrange, if_pos hline, hindex, List.getElem?_set_self hlength]
  · rw [if_neg hline]
    split
    · have hindex : line.toNat - 1 ≠ i := by omega
      rw [List.getElem?_set_ne hindex, hkept]
    · exact hkept

/-! ### Several masks -/

/-- A source with several of its lines masked, one after the other. -/
def maskAll (source : String) (lines : List Int) : String := lines.foldl maskLine source

theorem lineCount_maskAll (source : String) (lines : List Int) :
    lineCount (maskAll source lines).toList = lineCount source.toList := by
  induction lines generalizing source with
  | nil => rfl
  | cons line lines ih =>
    rw [maskAll, List.foldl_cons]
    exact (ih (maskLine source line)).trans (lineCount_maskLine source line)

theorem iterate_dropReturn_markerText (n : Nat) (line : Int) :
    dropReturn^[n] (markerText line).toList = (markerText line).toList := by
  induction n with
  | zero => rfl
  | succ n ih => rw [Function.iterate_succ_apply, dropReturn_markerText, ih]

theorem trimmedLine_markerText (count masks i : Nat) (line : Int) :
    trimmedLine count masks i (markerText line).toList = (markerText line).toList := by
  rw [trimmedLine, iterate_dropReturn_markerText, ite_self]

theorem trimmedLine_trimmedLine (count first second i : Nat) (l : List Char) :
    trimmedLine count second i (trimmedLine count first i l) =
      trimmedLine count (first + second) i l := by
  unfold trimmedLine
  split
  · rw [Nat.add_comm, Function.iterate_add_apply]
  · rfl

/-- The lines of a source in which several lines are masked. -/
theorem getElem?_maskAll (source : String) (lines : List Int) (i : Nat) (l : List Char)
    (h : (feedLines source.toList)[i]? = some l) :
    (feedLines (maskAll source lines).toList)[i]? =
      some (if (i + 1 : Int) ∈ lines then (markerText (i + 1)).toList
        else trimmedLine (lineCount source.toList) lines.length i l) := by
  induction lines generalizing source l with
  | nil => simpa [maskAll, trimmedLine] using h
  | cons line lines ih =>
    have hfirst := getElem?_maskLine source line i l h
    have hrest := ih (maskLine source line) _ hfirst
    rw [lineCount_maskLine] at hrest
    rw [maskAll, List.foldl_cons]
    refine hrest.trans (congrArg some ?_)
    by_cases hline : line = i + 1
    · rw [if_pos hline, hline, trimmedLine_markerText]
      simp
    · have hmem : (i + 1 : Int) ∈ line :: lines ↔ (i + 1 : Int) ∈ lines := by
        rw [List.mem_cons, or_iff_right (Ne.symm hline)]
      simp only [hmem, if_neg hline, trimmedLine_trimmedLine, List.length_cons, Nat.add_comm 1]

/-- Masks may be made in any order. -/
theorem maskAll_perm (source : String) (first second : List Int) (h : first.Perm second) :
    maskAll source first = maskAll source second := by
  refine String.toList_injective (eq_of_feedLines_eq _ _ (List.ext_getElem? fun i => ?_))
  cases hl : (feedLines source.toList)[i]? with
  | some l =>
    rw [getElem?_maskAll source first i l hl, getElem?_maskAll source second i l hl, h.length_eq]
    simp only [h.mem_iff]
  | none =>
    have hshort := List.getElem?_eq_none_iff.mp hl
    rw [length_feedLines_eq] at hshort
    rw [List.getElem?_eq_none, List.getElem?_eq_none]
    · rw [length_feedLines_eq, lineCount_maskAll]
      exact hshort
    · rw [length_feedLines_eq, lineCount_maskAll]
      exact hshort

/-- A source masked at a set of lines. -/
def maskedAt (source : String) (lines : Finset Int) : String := maskAll source lines.sort

theorem maskAll_eq_maskedAt (source : String) (lines : List Int) (h : lines.Nodup) :
    maskAll source lines = maskedAt source lines.toFinset := by
  refine maskAll_perm source _ _ ((List.perm_ext_iff_of_nodup h (Finset.sort_nodup _ _)).mpr ?_)
  intro line
  rw [Finset.mem_sort, List.mem_toFinset]

theorem maskLine_maskedAt (source : String) (lines : Finset Int) (line : Int) (h : line ∉ lines) :
    maskLine (maskedAt source lines) line = maskedAt source (insert line lines) := by
  have hnodup : (lines.sort ++ [line]).Nodup := by
    rw [List.nodup_append]
    refine ⟨Finset.sort_nodup _ _, List.nodup_singleton _, ?_⟩
    intro a ha b hb hab
    rw [hab, List.mem_singleton.mp hb, Finset.mem_sort] at ha
    exact h ha
  have happend : maskLine (maskedAt source lines) line = maskAll source (lines.sort ++ [line]) := by
    rw [maskedAt, maskAll, maskAll, List.foldl_append]
    rfl
  rw [happend, maskAll_eq_maskedAt source _ hnodup]
  congr 1
  ext other
  simp

theorem lineCount_maskedAt (source : String) (lines : Finset Int) :
    lineCount (maskedAt source lines).toList = lineCount source.toList :=
  lineCount_maskAll source _

/-! ### Kept lines -/

theorem markerText_eq (line : Int) :
    markerText line = "(__exscope_marker_" ++ toString line ++ "__())" := by
  refine String.toList_injective ?_
  simp [markerText, markerName, markerStart, String.toList_append]

/-- Carriage returns are dropped one by one, as long as there are any. -/
theorem iterate_dropReturn (n : Nat) (l : List Char) :
    l = dropReturn^[n] l ++ List.replicate (min n (l.rtakeWhile (· == '\r')).length) '\r' := by
  induction n generalizing l with
  | zero => simp
  | succ n ih =>
    rw [Function.iterate_succ_apply]
    rcases List.eq_nil_or_concat' l with rfl | ⟨front, c, rfl⟩
    · simpa [dropReturn] using ih []
    · by_cases hc : c = '\r'
      · subst hc
        have hdrop : dropReturn (front ++ ['\r']) = front := by simp [dropReturn]
        have hreturns := List.rtakeWhile_concat_pos (· == '\r') front '\r' (by decide)
        rw [hdrop, hreturns, List.length_append, List.length_singleton, Nat.add_min_add_right,
          List.replicate_succ', ← List.append_assoc, ← ih front]
      · have hdrop : dropReturn (front ++ [c]) = front ++ [c] := by simp [dropReturn, hc]
        have hreturns := List.rtakeWhile_concat_neg (· == '\r') front c (by simpa using hc)
        have hkept := ih (front ++ [c])
        rw [hreturns] at hkept
        simpa [hdrop, hreturns] using hkept

/-- The lines of a source in which several lines are masked, in whatever order: a masked line is its
marker, and any other line but the last loses a carriage return at its end to each mask. -/
theorem maskAll_lines (source : String) (lines : List Int) :
    (maskAll source lines).toList.count '\n' = source.toList.count '\n' ∧
    (∀ (i : Nat) (l : List Char), (feedLines source.toList)[i]? = some l →
      ((i + 1 : Int) ∈ lines → (feedLines (maskAll source lines).toList)[i]? =
        some ("(__exscope_marker_" ++ toString (i + 1 : Int) ++ "__())").toList) ∧
      ((i + 1 : Int) ∉ lines → ∃ kept removed,
        (feedLines (maskAll source lines).toList)[i]? = some kept ∧
        l = kept ++ List.replicate removed '\r' ∧
        removed = if i = source.toList.count '\n' then 0
          else min lines.length (l.rtakeWhile (· == '\r')).length)) ∧
    ∀ order, order.Perm lines → maskAll source order = maskAll source lines := by
  refine ⟨?_, fun i l hl => ?_, fun order horder => maskAll_perm source order lines horder⟩
  · have hcount := lineCount_maskAll source lines
    rw [lineCount, lineCount] at hcount
    omega
  · have hline := getElem?_maskAll source lines i l hl
    have hbound := (List.getElem?_eq_some_iff.mp hl).1
    rw [length_feedLines] at hbound
    refine ⟨fun hmem => ?_, fun hmem => ?_⟩
    · rw [hline, if_pos hmem, markerText_eq]
    · rw [if_neg hmem, trimmedLine, lineCount] at hline
      by_cases hlast : i = source.toList.count '\n'
      · rw [if_neg (by omega)] at hline
        exact ⟨l, 0, hline, by simp, by simp [hlast]⟩
      · rw [if_pos (by omega)] at hline
        exact ⟨_, _, hline, iterate_dropReturn lines.length l, by simp [hlast]⟩

/-- Two masks, one of them at no line, take two carriage returns off the first line. -/
theorem maskAll_lines_carriageReturns :
    (feedLines (maskAll "a\r\r\r\nb\r\nc\r" [9, 2]).toList)[1]? =
        some "(__exscope_marker_2__())".toList ∧
      ∃ kept removed, (feedLines (maskAll "a\r\r\r\nb\r\nc\r" [9, 2]).toList)[0]? = some kept ∧
        ['a', '\r', '\r', '\r'] = kept ++ List.replicate removed '\r' ∧ removed = 2 := by
  obtain ⟨-, hlines, -⟩ := maskAll_lines "a\r\r\r\nb\r\nc\r" [9, 2]
  exact ⟨(hlines 1 _ rfl).1 (by decide), (hlines 0 _ rfl).2 (by decide)⟩

end LineScope
