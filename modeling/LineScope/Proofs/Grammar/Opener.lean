import LineScope.Grammar.Opener
import Mathlib.Data.List.Induction

/-!
# Lines of unclosed blocks

Blanking what is not code keeps every line feed, so the scan for unclosed blocks counts the lines of
the source itself.
-/

namespace LineScope.Grammar

theorem count_blankNonCode (hidden : Nat) (cs : List Char) :
    (blankNonCode hidden cs).count '\n' = cs.count '\n' := by
  fun_induction blankNonCode hidden cs with
  | case1 => rfl
  | case2 hidden cs ih => rw [List.count_cons_self, List.count_cons_self, ih]
  | case3 hidden c cs hc ih => rw [List.count_cons_of_ne hc, ih]
  | case4 c cs _ ih => rw [List.count_cons, List.count_cons, ih]
  | case5 cs width _ ih => rw [List.count_cons_self, List.count_cons_self, ih]
  | case6 c cs width _ hc ih => rw [List.count_cons_of_ne hc, ih]

theorem blockWordAt?_cases (before : Option Char) (cs : List Char) (word : String)
    (h : blockWordAt? before cs = some word) : word = "do" ∨ word = "fn" ∨ word = "end" := by
  unfold blockWordAt? at h
  split at h
  · cases h
  · have hmem := List.mem_of_find?_eq_some h
    simpa using hmem

/-- Every word that opens a block is one of two, and stands on one of the lines of the text. -/
theorem mem_blockWords (before : Option Char) (line : Nat) (cs : List Char) (word : String)
    (found : Nat) (h : .open_ word found ∈ blockWords before line cs) :
    (word = "do" ∨ word = "fn") ∧ line ≤ found ∧ found ≤ line + cs.count '\n' := by
  induction cs generalizing before line with
  | nil => cases h
  | cons c cs ih =>
    have hrest : ∀ before', .open_ word found ∈
          blockWords before' (if c = '\n' then line + 1 else line) cs →
        (word = "do" ∨ word = "fn") ∧ line ≤ found ∧ found ≤ line + (c :: cs).count '\n' := by
      intro before' hm
      obtain ⟨hw, hl, hu⟩ := ih before' _ hm
      refine ⟨hw, ?_⟩
      by_cases hc : c = '\n'
      · rw [if_pos hc] at hl hu
        rw [hc, List.count_cons_self]
        omega
      · rw [if_neg hc] at hl hu
        rw [List.count_cons_of_ne hc]
        exact ⟨hl, hu⟩
    rw [blockWords] at h
    split at h
    · exact hrest _ h
    · rename_i here hat
      rcases List.mem_cons.mp h with h | h
      · split at h
        · cases h
        · rename_i hne
          cases h
          rcases blockWordAt?_cases _ _ _ hat with hw | hw | hw
          · exact ⟨.inl hw, by omega⟩
          · exact ⟨.inr hw, by omega⟩
          · exact absurd hw hne
      · exact hrest _ h

theorem openBlocks_open (words : List BlockWord) (word : String) (line : Nat) :
    openBlocks (words ++ [.open_ word line]) = (word, line) :: openBlocks words := by
  rw [openBlocks, List.foldl_append]
  rfl

theorem openBlocks_close (words : List BlockWord) :
    openBlocks (words ++ [.close]) = (openBlocks words).drop 1 := by
  rw [openBlocks, List.foldl_append]
  rfl

theorem mem_openBlocks (words : List BlockWord) (entry : String × Nat)
    (h : entry ∈ openBlocks words) : .open_ entry.1 entry.2 ∈ words := by
  induction words using List.reverseRecOn with
  | nil => cases h
  | append_singleton words word ih =>
    cases word with
    | open_ word line =>
      rw [openBlocks_open] at h
      rcases List.mem_cons.mp h with rfl | h
      · exact List.mem_append_right _ List.mem_cons_self
      · exact List.mem_append_left _ (ih h)
    | close =>
      rw [openBlocks_close] at h
      exact List.mem_append_left _ (ih (List.mem_of_mem_drop h))

/-- The innermost unclosed block of a source is opened by one of two words, on one of its lines. -/
theorem unclosedOpener_bounds (source : List Char) (word : String) (line : Nat)
    (h : unclosedOpener source = some (word, line)) :
    (word = "do" ∨ word = "fn") ∧ 1 ≤ line ∧ line ≤ source.count '\n' + 1 := by
  have hmem := mem_openBlocks _ _ (List.mem_of_head? h)
  obtain ⟨hword, hl, hu⟩ := mem_blockWords none 1 _ word line hmem
  rw [count_blankNonCode] at hu
  exact ⟨hword, hl, by omega⟩

end LineScope.Grammar
