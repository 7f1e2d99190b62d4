/-!
# Ascending lists

Line numbers are listed in ascending order and without repetition.
-/

namespace LineScope

/-- Puts a number into an ascending list. -/
def insertAscending (n : Int) : List Int → List Int
  | [] => [n]
  | m :: ms => if n < m then n :: m :: ms else if n = m then m :: ms else m :: insertAscending n ms

/-- The numbers of a list, ascending and each once. -/
def ascending (ns : List Int) : List Int := ns.foldr insertAscending []

theorem mem_insertAscending (n m : Int) (ms : List Int) :
    m ∈ insertAscending n ms ↔ m = n ∨ m ∈ ms := by
  induction ms with
  | nil => simp [insertAscending]
  | cons k ks ih =>
    by_cases h : n < k
    · simp [insertAscending, h]
    · by_cases he : n = k
      · simp [insertAscending, he]
      · rw [insertAscending, if_neg h, if_neg he, List.mem_cons, List.mem_cons, ih]
        constructor
        · rintro (h | h | h) <;> simp [h]
        · rintro (h | h | h) <;> simp [h]

/-- Sorting neither adds nor loses a number. -/
theorem mem_ascending (m : Int) (ns : List Int) : m ∈ ascending ns ↔ m ∈ ns := by
  induction ns with
  | nil => simp [ascending]
  | cons n ns ih =>
    simp only [ascending, List.foldr_cons, mem_insertAscending, List.mem_cons] at ih ⊢
    rw [ih]

theorem pairwise_insertAscending (n : Int) (ms : List Int) (h : ms.Pairwise (· < ·)) :
    (insertAscending n ms).Pairwise (· < ·) := by
  induction ms with
  | nil => simp [insertAscending]
  | cons k ks ih =>
    have hk := List.pairwise_cons.mp h
    by_cases hlt : n < k
    · rw [insertAscending, if_pos hlt]
      refine List.pairwise_cons.mpr ⟨?_, h⟩
      intro m hm
      rcases List.mem_cons.mp hm with rfl | hm
      · exact hlt
      · exact Int.lt_trans hlt (hk.1 m hm)
    · by_cases he : n = k
      · simpa [insertAscending, hlt, he] using h
      · rw [insertAscending, if_neg hlt, if_neg he]
        refine List.pairwise_cons.mpr ⟨?_, ih hk.2⟩
        intro m hm
        rcases (mem_insertAscending n m ks).mp hm with rfl | hm
        · omega
        · exact hk.1 m hm

/-- A sorted list is strictly ascending. -/
theorem pairwise_ascending (ns : List Int) : (ascending ns).Pairwise (· < ·) := by
  induction ns with
  | nil => simp [ascending]
  | cons n ns ih => exact pairwise_insertAscending n _ ih

end LineScope
