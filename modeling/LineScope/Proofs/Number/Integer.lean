import LineScope.Number.Integer
import Mathlib.Data.List.Basic
import Mathlib.Data.List.TakeWhile

/-!
# Reading decimal numerals

A row of ASCII digits within the digit limit is read as the number that it denotes, so a number that
was written in digits is read back.
-/

namespace LineScope.Number

open LineScope.Text

theorem decimalValue?_of_isDigit (c : Char) (h : c.isDigit = true) :
    decimalValue? c = some (c.toNat - 48) := by
  rw [decimalValue?, if_pos h]

theorem toNat_of_isDigit (c : Char) (h : c.isDigit = true) : 48 ≤ c.toNat ∧ c.toNat ≤ 57 := by
  simp only [Char.isDigit, Bool.and_eq_true, decide_eq_true_eq] at h
  exact ⟨h.1, h.2⟩

theorem digitValue?_of_isDigit (c : Char) (h : c.isDigit = true) :
    digitValue? 10 c = some (c.toNat - 48) := by
  have hlt : c.toNat - 48 < 10 := by
    have hc := toNat_of_isDigit c h
    omega
  simp [digitValue?, decimalValue?_of_isDigit c h, hlt]

theorem isNumeralBlank_of_isDigit (c : Char) (h : c.isDigit = true) : isNumeralBlank c = false := by
  have hc := toNat_of_isDigit c h
  simp only [isNumeralBlank, isSpace, Bool.and_eq_false_iff, Bool.or_eq_false_iff,
    decide_eq_false_iff_not, beq_eq_false_iff_ne]
  omega

theorem trimNumeral_of_not_blank (cs : List Char) (h : ∀ c ∈ cs, isNumeralBlank c = false) :
    trimNumeral cs = cs := by
  have hfront : ∀ ds : List Char, (∀ c ∈ ds, isNumeralBlank c = false) →
      ds.dropWhile isNumeralBlank = ds := by
    intro ds hds
    cases ds with
    | nil => rfl
    | cons d ds => rw [List.dropWhile_cons, hds d List.mem_cons_self]; rfl
  have hback := hfront cs.reverse fun c hc => h c (List.mem_reverse.mp hc)
  rw [trimNumeral, hfront cs h, dropRight, hback, List.reverse_reverse]

/-! ### Rows of digits -/

section Row

variable (base : Nat) (value : Char → Nat) (cs : List Char)
  (h : ∀ c ∈ cs, digitValue? base c = some (value c))

include h

theorem ne_bar_of_digits : ∀ c ∈ cs, c ≠ '_' := by
  rintro c hc rfl
  cases h '_' hc

theorem wellSeparated_of_digits (hne : cs ≠ []) : wellSeparated cs = true := by
  induction cs with
  | nil => exact absurd rfl hne
  | cons c cs ih =>
    have hbar := ne_bar_of_digits base value (c :: cs) h
    have hc := hbar c List.mem_cons_self
    cases cs with
    | nil => simp [wellSeparated]
    | cons d ds =>
      have hd := hbar d (List.mem_cons_of_mem _ List.mem_cons_self)
      have hrest := ih (fun e he => h e (List.mem_cons_of_mem _ he)) (List.cons_ne_nil _ _)
      simpa [wellSeparated, hc, hd] using hrest

/-- A row of digits of a base is read as its positional value, if there are any digits and not too
many of them. -/
theorem readUnsigned_of_digits (malformed : Fault) :
    readUnsigned base malformed cs =
      if cs = [] then .error malformed
      else if isLimited base && digitLimit < cs.length then .error (.tooLong cs.length)
      else .ok (positional base (cs.map value)) := by
  have hrun : cs.takeWhile (fun c => c == '_' || (digitValue? base c).isSome) = cs := by
    rw [List.takeWhile_eq_self_iff]
    intro c hc
    simp [h c hc]
  have hvalues : cs.filterMap (digitValue? base) = cs.map value :=
    List.filterMap_eq_map_iff_forall_eq_some.mpr h
  simp only [readUnsigned, hrun, hvalues, List.length_map, Nat.lt_irrefl, if_false]
  cases cs with
  | nil => rfl
  | cons c cs =>
    rw [wellSeparated_of_digits base value (c :: cs) h (List.cons_ne_nil _ _),
      if_neg (List.cons_ne_nil _ _)]
    rfl

end Row

section Digits

variable (digits : List Char) (h : ∀ c ∈ digits, c.isDigit = true)

include h

theorem readInt_eq_readUnsigned :
    readInt (String.ofList digits) =
      (readUnsigned 10 (.malformed 10 (String.ofList digits)) digits).map Int.ofNat := by
  rw [readInt, String.toList_ofList, trimNumeral_of_not_blank digits
    fun c hc => isNumeralBlank_of_isDigit c (h c hc)]
  split
  · exact absurd (h '-' List.mem_cons_self) (by decide)
  · exact absurd (h '+' List.mem_cons_self) (by decide)
  · rfl

theorem readInt_digits (hne : digits ≠ []) :
    readInt (String.ofList digits) =
      if digitLimit < digits.length then .error (.tooLong digits.length)
      else .ok (Nat.ofDigitChars 10 digits 0 : Nat) := by
  have hvalue : positional 10 (digits.map (·.toNat - 48)) = Nat.ofDigitChars 10 digits 0 := by
    simp only [positional, Nat.ofDigitChars_eq_foldl, List.foldl_map, Nat.mul_comm]
    rfl
  rw [readInt_eq_readUnsigned digits h, readUnsigned_of_digits 10 (·.toNat - 48) digits
    (fun c hc => digitValue?_of_isDigit c (h c hc)), if_neg hne, hvalue]
  simp only [isLimited, beq_self_eq_true, Bool.true_and, decide_eq_true_eq]
  split <;> rfl

/-- A row of digits within the limit is read as the number that it denotes. -/
theorem readInt_of_digits (hne : digits ≠ []) (hlimit : digits.length ≤ digitLimit) :
    readInt (String.ofList digits) = .ok (Nat.ofDigitChars 10 digits 0 : Nat) := by
  rw [readInt_digits digits h hne, if_neg (by omega)]

/-- A row of digits beyond the limit is not read. -/
theorem readInt_of_long (hlimit : digitLimit < digits.length) :
    readInt (String.ofList digits) = .error (.tooLong digits.length) := by
  have hne : digits ≠ [] := by
    rintro rfl
    simp at hlimit
  rw [readInt_digits digits h hne, if_pos hlimit]

end Digits

theorem length_toDigits_le (n k : Nat) (hk : 0 < k) (h : n < tenPow k) :
    (Nat.toDigits 10 n).length ≤ k :=
  (Nat.length_toDigits_le_iff (by omega) hk).mpr h

/-- A number that can be written within the limit is read back from its digits. -/
theorem readInt_toDigits (n : Nat) (h : n < tenPow digitLimit) :
    readInt (String.ofList (Nat.toDigits 10 n)) = .ok (n : Int) := by
  have hlimit := length_toDigits_le n digitLimit (by decide) h
  rw [readInt_of_digits _ (fun c hc => Nat.isDigit_of_mem_toDigits (by omega) (by omega) hc)
    Nat.toDigits_ne_nil hlimit, Nat.ofDigitChars_ten_toDigits]

/-- What is read from the digits of a number is the number. -/
theorem eq_of_readInt_toDigits (n : Nat) (value : Int)
    (h : readInt (String.ofList (Nat.toDigits 10 n)) = .ok value) : value = n := by
  rw [readInt_digits _ (fun c hc => Nat.isDigit_of_mem_toDigits (by omega) (by omega) hc)
    Nat.toDigits_ne_nil] at h
  split at h
  · cases h
  · cases h
    rw [Nat.ofDigitChars_ten_toDigits]

/-! ### Characters of integers -/

/-- A character that the text of an integer can hold. -/
def isIntegral (c : Char) : Bool := c.isDigit || c == '-'

theorem isIntegral_of_mem_toString (value : Int) {c : Char} (h : c ∈ (toString value).toList) :
    isIntegral c = true := by
  have hdigits : ∀ n : Nat, c ∈ (toString n).toList → isIntegral c = true := by
    intro n hn
    rw [Nat.toString_eq_repr, Nat.toList_repr] at hn
    simp [isIntegral, Nat.isDigit_of_mem_toDigits (by omega) (by omega) hn]
  cases value with
  | ofNat n => exact hdigits n h
  | negSucc n =>
    have hsign : c ∈ ("-" ++ toString (n + 1)).toList := h
    rw [String.toList_append, List.mem_append] at hsign
    rcases hsign with hc | hc
    · simp [isIntegral, show c = '-' by simpa using hc]
    · exact hdigits _ hc

theorem toString_ne_nil (value : Int) : (toString value).toList ≠ [] := by
  cases value with
  | ofNat n =>
    show (toString n).toList ≠ []
    rw [Nat.toString_eq_repr, Nat.toList_repr]
    exact Nat.toDigits_ne_nil
  | negSucc n =>
    show ("-" ++ toString (n + 1)).toList ≠ []
    simp

end LineScope.Number
