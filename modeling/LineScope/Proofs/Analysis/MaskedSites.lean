import LineScope.Proofs.Analysis.Masking
import LineScope.Proofs.Grammar.Told

/-!
# Markers in a masked source

In a source whose lines hold no beginning of a marker, masking makes the only ones: each masked line
is a site, and wherever the name of a marker begins in the masked source there is one.
-/

namespace LineScope

open LineScope.Text LineScope.Grammar

/-- A source none of whose lines holds the beginning of a marker. -/
def MarkerFree (source : String) : Prop :=
  ∀ l ∈ sourceLines source.toList, ¬ markerStart.toList <:+: l

/-! ### The beginning of a marker -/

/-- The beginning of a marker is found in its text only behind the parenthesis. -/
theorem head_of_markerText (line : Int) (head tail : List Char)
    (h : head ++ (markerStart.toList ++ tail) = (markerText line).toList) : head = ['('] := by
  have htext : (markerText line).toList = '(' :: "__e".toList ++ 'x' ::
      ("scope_marker_".toList ++ ((toString line).toList ++ "__())".toList)) := by
    simp [markerText, markerName, markerStart]
  have hstart : head ++ (markerStart.toList ++ tail) =
      head ++ "__e".toList ++ 'x' :: ("scope_marker_".toList ++ tail) := by
    simp [markerStart]
  have hletter : 'x' ∉ "scope_marker_".toList ++ ((toString line).toList ++ "__())".toList) := by
    have hnumber : 'x' ∉ (toString line).toList := fun h =>
      absurd (Number.isIntegral_of_mem_toString line h) (by decide)
    simp only [List.mem_append, not_or]
    exact ⟨by decide, hnumber, by decide⟩
  rw [hstart, htext] at h
  have heq := ((List.append_cons_inj_of_notMem (by decide) hletter).mp h.symm).1.symm
  exact List.append_cancel_right heq

theorem infix_dropReturn (word l : List Char) (hword : word.getLast? = some '_')
    (h : word <:+: l) : word <:+: dropReturn l := by
  obtain ⟨x, y, rfl⟩ := h
  unfold dropReturn
  split
  · rename_i hreturn
    rcases List.eq_nil_or_concat y with rfl | ⟨y, last, rfl⟩
    · rw [List.append_nil, List.getLast?_append, hword] at hreturn
      cases hreturn
    · refine ⟨x, y, ?_⟩
      rw [List.concat_eq_append, ← List.append_assoc, List.dropLast_concat]
  · exact List.infix_append _ _ _

/-- A line that is not masked holds no beginning of a marker. -/
theorem MarkerFree.trimmedLine {source : String} (h : MarkerFree source) (masks i : Nat)
    (l : List Char) (hl : (feedLines source.toList)[i]? = some l) :
    ¬ markerStart.toList <:+: trimmedLine (lineCount source.toList) masks i l := by
  intro hpart
  have hline : markerStart.toList <:+: l := by
    refine hpart.trans ?_
    unfold LineScope.trimmedLine
    split
    · have hprefix : dropReturn^[masks] l <+: l := ⟨_, (iterate_dropReturn masks l).symm⟩
      exact hprefix.isInfix
    · exact List.infix_refl l
  have hsource : (sourceLines source.toList)[i]? =
      some (if i + 1 < (feedLines source.toList).length then dropReturn l else l) := by
    rw [sourceLines, getElem?_dropReturns, hl]
    split <;> rfl
  refine h _ (List.mem_of_getElem? hsource) ?_
  split
  · exact infix_dropReturn _ l (by decide) hline
  · exact hline

/-! ### Sites -/

theorem exists_feedLine (source : String) (i : Nat) (h : i < lineCount source.toList) :
    ∃ l, (feedLines source.toList)[i]? = some l := by
  rw [← length_feedLines_eq] at h
  exact ⟨_, List.getElem?_eq_getElem h⟩

/-- Every masked line is a site. -/
theorem site_of_masked (source : String) (lines : List Int) (line : Int) (hmem : line ∈ lines)
    (hbounds : 1 ≤ line ∧ line ≤ lineCount source.toList) :
    ∃ site : Site (maskAll source lines).toList, (site.line : Int) = line := by
  obtain ⟨i, rfl⟩ : ∃ i : Nat, line = i + 1 := ⟨(line - 1).toNat, by omega⟩
  obtain ⟨l, hl⟩ := exists_feedLine source i (by omega)
  have hline := getElem?_maskAll source lines i l hl
  rw [if_pos hmem] at hline
  obtain ⟨front, behind, hsplit, hstart, hcount⟩ := split_of_getElem?_feedLines _ _ i hline
  exact ⟨⟨front, i + 1, behind, hsplit, hstart, by rw [hcount]⟩, rfl⟩

/-- Where a marker begins there is the site of a masked line. -/
theorem MarkerFree.exists_site {source : String} (h : MarkerFree source) (lines : List Int)
    (before behind : List Char)
    (hsplit : (maskAll source lines).toList = before ++ (markerStart.toList ++ behind)) :
    ∃ site : Site (maskAll source lines).toList, before.length = site.nameStart ∧
      (site.line : Int) ∈ lines := by
  obtain ⟨front, head, tail, rest, rfl, rfl, hstart, hline⟩ :=
    line_of_word before markerStart.toList behind (by decide)
  rw [← hsplit] at hline
  obtain ⟨l, hl⟩ : ∃ l, (feedLines source.toList)[front.count '\n']? = some l := by
    refine exists_feedLine source _ ?_
    rw [← lineCount_maskAll source lines, ← length_feedLines_eq]
    exact (List.getElem?_eq_some_iff.mp hline).1
  have hmasked := Option.some.inj (hline.symm.trans (getElem?_maskAll source lines _ l hl))
  split at hmasked
  · rename_i hmem
    obtain rfl := head_of_markerText _ head tail hmasked
    refine ⟨⟨front, front.count '\n' + 1, rest, ?_, hstart, rfl⟩, ?_, hmem⟩
    · have htext : ['('] ++ (markerStart.toList ++ tail) =
          (markerText ((front.count '\n' + 1 : Nat) : Int)).toList := hmasked
      rw [hsplit, ← htext]
      simp
    · rw [Site.nameStart, List.length_append, List.length_singleton]
  · refine absurd ?_ (h.trimmedLine lines.length _ l hl)
    rw [← hmasked, ← List.append_assoc]
    exact List.infix_append _ _ _

theorem MarkerFree.onlySites {source : String} (h : MarkerFree source) (lines : List Int) :
    OnlySites (maskAll source lines).toList := by
  intro front rest hsplit
  obtain ⟨site, hstart, -⟩ := h.exists_site lines front rest hsplit
  exact ⟨site, hstart⟩

/-- Every site is a masked line. -/
theorem MarkerFree.mem_of_site {source : String} (h : MarkerFree source) (lines : List Int)
    (site : Site (maskAll source lines).toList) : (site.line : Int) ∈ lines := by
  have hsplit : (maskAll source lines).toList = (site.front ++ ['(']) ++ (markerStart.toList ++
      ((toString (site.line : Int)).toList ++ "__())".toList ++ site.behind)) :=
    site.split.trans (by simp [markerText, markerName])
  obtain ⟨other, hstart, hmem⟩ := h.exists_site lines _ _ hsplit
  have hfront : site.front = other.front := by
    have hname : site.nameStart = other.nameStart := by
      rw [← hstart, Site.nameStart, List.length_append, List.length_singleton]
    have htake := site.take_nameStart.symm.trans (hname ▸ other.take_nameStart)
    exact List.append_cancel_right htake
  rw [site.line_eq, hfront, ← other.line_eq]
  exact hmem

end LineScope
