import LineScope.Number.Decimal
import Mathlib.Data.Set.Function

/-!
# Characters of floating-point numbers

The text of a floating-point number holds digits and a few other characters.  One of them is in no
integer: a point, the letter of an exponent or a letter of a word.
-/

namespace LineScope.Number.Binary64

/-- A character that the text of a floating-point number can hold. -/
def isDecimalMark (c : Char) : Bool := c.isDigit || c ∈ ['.', 'e', '+', '-', 'i', 'n', 'f', 'a']

/-- A character that tells a floating-point number from an integer. -/
def isFloatMark (c : Char) : Bool := c ∈ ['.', 'e', 'n']

section Digits

variable {digits : List Char} (h : ∀ c ∈ digits, c.isDigit = true)

include h

theorem isDigit_of_mem_dropZeros {c : Char} (hc : c ∈ dropZeros digits) : c.isDigit = true := by
  rw [dropZeros, Text.dropRight, List.mem_reverse] at hc
  exact h c (List.mem_reverse.mp ((List.dropWhile_sublist _).subset hc))

theorem isDecimalMark_of_mem_pointed (before : Int) {c : Char} (hc : c ∈ pointed digits before) :
    isDecimalMark c = true := by
  have hdigit : c.isDigit = true ∨ c = '.' := by
    unfold pointed at hc
    split at hc
    · simp only [List.mem_append, List.mem_cons, List.mem_replicate, List.not_mem_nil] at hc
      rcases hc with ((rfl | rfl | hc) | ⟨-, rfl⟩) | hc
      · exact .inl rfl
      · exact .inr rfl
      · cases hc
      · exact .inl rfl
      · exact .inl (h c hc)
    · dsimp only at hc
      simp only [List.mem_append, List.mem_cons, List.mem_replicate, List.not_mem_nil] at hc
      rcases hc with ((hc | ⟨-, rfl⟩) | rfl | hc) | hc
      · exact .inl (h c (List.mem_of_mem_take hc))
      · exact .inl rfl
      · exact .inr rfl
      · cases hc
      · split at hc
        · exact .inl (by simp [List.mem_singleton.mp hc])
        · exact .inl (h c (List.mem_of_mem_drop hc))
  rcases hdigit with hc | rfl
  · simp [isDecimalMark, hc]
  · rfl

end Digits

theorem point_mem_pointed (digits : List Char) (before : Int) : '.' ∈ pointed digits before := by
  unfold pointed
  split <;> simp

theorem isDecimalMark_of_mem_exponentText (exponent : Int) {c : Char}
    (hc : c ∈ exponentText exponent) : isDecimalMark c = true := by
  simp only [exponentText, List.mem_cons, List.mem_append, List.mem_replicate] at hc
  rcases hc with hc | ⟨-, rfl⟩ | hc
  · split at hc <;> subst hc <;> rfl
  · rfl
  · simp [isDecimalMark, Nat.isDigit_of_mem_toDigits (by omega) (by omega) hc]

theorem isDecimalMark_of_mem_decimal (decimal : Decimal) {c : Char} (hc : c ∈ decimal.text) :
    isDecimalMark c = true := by
  have hdigits : ∀ d ∈ dropZeros (Nat.toDigits 10 decimal.digits), d.isDigit = true := fun d hd =>
    isDigit_of_mem_dropZeros (fun e he => Nat.isDigit_of_mem_toDigits (by omega) (by omega) he) hd
  have hmark : c ∈ dropZeros (Nat.toDigits 10 decimal.digits) → isDecimalMark c = true := by
    intro hd
    simp [isDecimalMark, hdigits c hd]
  unfold Decimal.text at hc
  dsimp only at hc
  split at hc
  · exact isDecimalMark_of_mem_pointed hdigits _ hc
  · simp only [List.mem_append, List.mem_cons] at hc
    rcases hc with (hc | hc) | rfl | hc
    · exact hmark (List.mem_of_mem_take hc)
    · split at hc
      · cases hc
      · rcases List.mem_cons.mp hc with rfl | hc
        · rfl
        · exact hmark (List.mem_of_mem_drop hc)
    · rfl
    · exact isDecimalMark_of_mem_exponentText _ hc

theorem exists_isFloatMark_decimal (decimal : Decimal) :
    ∃ c ∈ decimal.text, isFloatMark c = true := by
  unfold Decimal.text
  dsimp only
  split
  · exact ⟨'.', point_mem_pointed _ _, rfl⟩
  · exact ⟨'e', by simp, rfl⟩

theorem toList_text_finite (negative : Bool) (mantissa : Nat) (exponent : Int) :
    (text (.finite negative mantissa exponent)).toList = (if negative then ['-'] else []) ++
      (if mantissa = 0 then ['0', '.', '0'] else (shortest mantissa exponent).text) := by
  unfold text
  dsimp only
  split <;> split <;> simp

theorem isDecimalMark_of_mem_text (value : Binary64) {c : Char} (hc : c ∈ value.text.toList) :
    isDecimalMark c = true := by
  cases value with
  | undefined => exact List.all_eq_true.mp (by decide : "nan".toList.all isDecimalMark) c hc
  | infinite negative =>
    cases negative
    · exact List.all_eq_true.mp (by decide : "inf".toList.all isDecimalMark) c hc
    · exact List.all_eq_true.mp (by decide : "-inf".toList.all isDecimalMark) c hc
  | finite negative mantissa exponent =>
    rw [toList_text_finite, List.mem_append] at hc
    rcases hc with hc | hc <;> split at hc
    · rw [List.mem_singleton.mp hc]
      rfl
    · cases hc
    · exact List.all_eq_true.mp (by decide : ['0', '.', '0'].all isDecimalMark) c hc
    · exact isDecimalMark_of_mem_decimal _ hc

theorem exists_isFloatMark (value : Binary64) :
    ∃ c ∈ value.text.toList, isFloatMark c = true := by
  cases value with
  | undefined => exact ⟨'n', by decide, rfl⟩
  | infinite negative => cases negative <;> exact ⟨'n', by decide, rfl⟩
  | finite negative mantissa exponent =>
    have hunsigned : ∃ c ∈ (if mantissa = 0 then ['0', '.', '0']
        else (shortest mantissa exponent).text), isFloatMark c = true := by
      split
      · exact ⟨'.', by decide, rfl⟩
      · exact exists_isFloatMark_decimal _
    obtain ⟨c, hc, hmark⟩ := hunsigned
    exact ⟨c, toList_text_finite negative _ _ ▸ List.mem_append_right _ hc, hmark⟩

/-- The texts of numbers that are read back tell the numbers apart. -/
theorem injOn_text : {value | read? value.text = some value}.InjOn text := by
  intro x hx y hy h
  have hread : some x = some y := by
    calc some x = read? x.text := hx.symm
      _ = read? y.text := congrArg read? h
      _ = some y := hy
  exact Option.some.inj hread

end LineScope.Number.Binary64
