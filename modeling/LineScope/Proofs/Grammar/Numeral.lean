import LineScope.Grammar.Decode
import LineScope.Proofs.Grammar.Terminal
import LineScope.Proofs.Number.Integer
import Mathlib.Data.Nat.Digits.Defs

/-!
# Values of integer tokens

An integer token is made of digits and underscores, perhaps behind a mark that names its base, and is
read as the positional value of its digits.  Underscores may stand anywhere behind the first digit or
the mark, so a token with a mark can be without digits, and then it is not read.
-/

namespace LineScope.Grammar

open LineScope.Number LineScope.Text Terminal

/-! ### Numerals -/

/-- The value of a digit: its place in the row of digits, in which letters are small. -/
def digitPlace (c : Char) : Nat := "0123456789abcdef".toList.idxOf c.toLower

/-- The base of a numeral, and its digits and underscores. -/
structure Numeral where
  base : Nat
  body : List Char
deriving DecidableEq, Repr

namespace Numeral

/-- The numeral that a text is: of base ten, unless the text starts with a mark. -/
def ofText : List Char → Numeral
  | '0' :: 'x' :: body => ⟨16, body⟩
  | '0' :: 'o' :: body => ⟨8, body⟩
  | '0' :: 'b' :: body => ⟨2, body⟩
  | body => ⟨10, body⟩

/-- Whether there are underscores only. -/
def isBare (numeral : Numeral) : Bool := numeral.body.all (· == '_')

def digits (numeral : Numeral) : List Nat :=
  (numeral.body.filter (· != '_')).map digitPlace

/-- The positional value; the last digit counts once. -/
def value (numeral : Numeral) : Nat := Nat.ofDigits numeral.base numeral.digits.reverse

theorem length_digits (numeral : Numeral) :
    numeral.digits.length = (numeral.body.filter (· != '_')).length := List.length_map _

theorem filter_eq_nil_iff (numeral : Numeral) :
    numeral.body.filter (· != '_') = [] ↔ numeral.isBare = true := by
  simp [isBare, List.filter_eq_nil_iff]

theorem value_eq_positional (numeral : Numeral) :
    numeral.value =
      positional numeral.base ((numeral.body.filter (· != '_')).map digitPlace) := by
  rw [value, positional, Nat.ofDigits_eq_foldr, List.foldr_reverse, digits]
  congr 1
  funext n d
  rw [Nat.cast_id]
  ring

end Numeral

/-! ### Characters of numerals -/

/-- The marks with their bases and the characters behind them. -/
def markedClasses : List (Char × Nat × (Char → Bool)) :=
  [('x', 16, isHexOrBar), ('o', 8, isOctalOrBar), ('b', 2, isBinaryOrBar)]

/-- The bases with the characters of their numerals. -/
def numeralClasses : List (Nat × (Char → Bool)) :=
  markedClasses.map (·.2) ++ [(10, isDigitOrBar)]

theorem mem_numeralClasses {mark : Char} {base : Nat} {inClass : Char → Bool}
    (h : (mark, base, inClass) ∈ markedClasses) : (base, inClass) ∈ numeralClasses :=
  List.mem_append_left _ (List.mem_map_of_mem (f := (·.2)) h)

theorem toNat_lt_of_class (base : Nat) (inClass : Char → Bool)
    (hclass : (base, inClass) ∈ numeralClasses) (c : Char) (h : inClass c = true) :
    c.toNat < 128 := by
  simp only [numeralClasses, markedClasses, List.map_cons, List.map_nil, List.cons_append,
    List.nil_append, List.mem_cons, List.not_mem_nil, or_false, Prod.mk.injEq] at hclass
  rcases hclass with ⟨-, rfl⟩ | ⟨-, rfl⟩ | ⟨-, rfl⟩ | ⟨-, rfl⟩
  · simp only [isHexOrBar, Bool.or_eq_true, Bool.and_eq_true, decide_eq_true_eq, beq_iff_eq] at h
    rcases h with ((h | h) | h) | rfl
    · have hc := toNat_of_isDigit c h
      omega
    · exact Nat.lt_of_le_of_lt h.2 (by decide : 'f'.toNat < 128)
    · exact Nat.lt_of_le_of_lt h.2 (by decide : 'F'.toNat < 128)
    · decide
  · simp only [isOctalOrBar, Bool.or_eq_true, Bool.and_eq_true, decide_eq_true_eq, beq_iff_eq] at h
    rcases h with h | rfl
    · exact Nat.lt_of_le_of_lt h.2 (by decide : '7'.toNat < 128)
    · decide
  · simp only [isBinaryOrBar, Bool.or_eq_true, beq_iff_eq] at h
    rcases h with (rfl | rfl) | rfl <;> decide
  · simp only [isDigitOrBar, Bool.or_eq_true, beq_iff_eq] at h
    rcases h with h | rfl
    · have hc := toNat_of_isDigit c h
      omega
    · decide

theorem digit_of_class_ascii : ∀ entry ∈ numeralClasses, ∀ n < 128,
    entry.2 (Char.ofNat n) = true → Char.ofNat n ≠ '_' →
      digitValue? entry.1 (Char.ofNat n) = some (digitPlace (Char.ofNat n)) ∧
        digitPlace (Char.ofNat n) < entry.1 ∧ isNumeralBlank (Char.ofNat n) = false := by
  decide

/-- The characters of a numeral, underscores apart, are digits of its base. -/
theorem digit_of_class (base : Nat) (inClass : Char → Bool)
    (hclass : (base, inClass) ∈ numeralClasses) (c : Char) (h : inClass c = true) (hc : c ≠ '_') :
    digitValue? base c = some (digitPlace c) ∧ digitPlace c < base ∧ isNumeralBlank c = false := by
  have hascii := digit_of_class_ascii (base, inClass) hclass c.toNat
    (toNat_lt_of_class base inClass hclass c h)
  rw [Char.ofNat_toNat] at hascii
  exact hascii h hc

/-! ### The form of a token -/

theorem forall_of_runWidth (p : Char → Bool) (cs : List Char) (h : runWidth p cs = cs.length) :
    ∀ c ∈ cs, p c = true :=
  List.takeWhile_eq_self_iff.mp ((List.takeWhile_prefix p).eq_of_length h)

theorem basedWidth_inv (mark : Char) (digit : Char → Bool) (cs : List Char)
    (h : basedWidth mark digit cs = some cs.length) :
    ∃ body, cs = '0' :: mark :: body ∧ ∀ c ∈ body, digit c = true := by
  unfold basedWidth at h
  split at h
  · rename_i m body
    dsimp only at h
    split at h
    · rename_i hm
      have hmark : m = mark := by simpa using (Bool.and_eq_true_iff.mp hm).1
      have hwidth : runWidth digit body = body.length := by
        have hlength := Option.some.inj h
        simpa using hlength
      exact ⟨body, by rw [hmark], forall_of_runWidth digit body hwidth⟩
    · cases h
  · cases h

theorem wholeWidth_inv (cs : List Char) (h : wholeWidth cs = some cs.length) :
    ∃ c rest, cs = c :: rest ∧ c.isDigit = true ∧ ∀ d ∈ rest, isDigitOrBar d = true := by
  unfold wholeWidth at h
  split at h
  · cases h
  · rename_i width hwidth
    split at h
    · cases h
    · obtain ⟨c, rest, rfl, hc, rfl⟩ := decimalWidth_inv cs width hwidth
      have hlength := Option.some.inj h
      rw [List.length_cons] at hlength
      exact ⟨c, rest, rfl, hc, forall_of_runWidth isDigitOrBar rest (by omega)⟩

/-- An integer token is a zero, a mark and characters of its base, or it starts with a digit. -/
theorem integer_token_inv (before : Option Char) (cs : List Char)
    (h : integer before cs = some cs.length) :
    (∃ mark base inClass body, (mark, base, inClass) ∈ markedClasses ∧ cs = '0' :: mark :: body ∧
      ∀ c ∈ body, inClass c = true) ∨
    ∃ c rest, cs = c :: rest ∧ c.isDigit = true ∧ ∀ d ∈ rest, isDigitOrBar d = true := by
  simp only [integer, Option.or_eq_some_iff] at h
  rcases h with h | ⟨-, h | ⟨-, h | ⟨-, h⟩⟩⟩
  · obtain ⟨body, hcs, hbody⟩ := basedWidth_inv 'x' isHexOrBar cs h
    exact .inl ⟨'x', 16, isHexOrBar, body, by simp [markedClasses], hcs, hbody⟩
  · obtain ⟨body, hcs, hbody⟩ := basedWidth_inv 'o' isOctalOrBar cs h
    exact .inl ⟨'o', 8, isOctalOrBar, body, by simp [markedClasses], hcs, hbody⟩
  · obtain ⟨body, hcs, hbody⟩ := basedWidth_inv 'b' isBinaryOrBar cs h
    exact .inl ⟨'b', 2, isBinaryOrBar, body, by simp [markedClasses], hcs, hbody⟩
  · exact .inr (wholeWidth_inv cs h)

/-! ### What a token is read as -/

/-- A text without its underscores. -/
def withoutBars (text : String) : String := String.ofList (text.toList.filter (· != '_'))

section Row

variable (base : Nat) (inClass : Char → Bool) (hclass : (base, inClass) ∈ numeralClasses)
  (body : List Char) (hbody : ∀ c ∈ body, inClass c = true)

include hclass hbody

theorem digit_of_mem_filter : ∀ c ∈ body.filter (· != '_'),
    digitValue? base c = some (digitPlace c) ∧ digitPlace c < base ∧ isNumeralBlank c = false := by
  intro c hc
  obtain ⟨hmem, hbar⟩ := List.mem_filter.mp hc
  exact digit_of_class base inClass hclass c (hbody c hmem) (by simpa using hbar)

theorem digits_lt : ∀ d ∈ (Numeral.mk base body).digits, d < base := by
  intro d hd
  obtain ⟨c, hc, rfl⟩ := List.mem_map.mp hd
  exact (digit_of_mem_filter base inClass hclass body hbody c hc).2.1

theorem readUnsigned_of_class (malformed : Number.Fault) :
    readUnsigned base malformed (body.filter (· != '_')) =
      if (Numeral.mk base body).isBare then .error malformed
      else if isLimited base && digitLimit < (Numeral.mk base body).digits.length then
        .error (.tooLong (Numeral.mk base body).digits.length)
      else .ok (Numeral.mk base body).value := by
  have hdigits := fun c hc => (digit_of_mem_filter base inClass hclass body hbody c hc).1
  rw [readUnsigned_of_digits base digitPlace _ hdigits malformed, Numeral.value_eq_positional,
    Numeral.length_digits]
  simp only [Numeral.filter_eq_nil_iff (Numeral.mk base body)]

end Row

theorem mark_of_class : ∀ entry ∈ markedClasses,
    entry.1 ≠ '_' ∧ isNumeralBlank entry.1 = false ∧ entry.2.1 ≠ 10 ∧
      isLimited entry.2.1 = false ∧
      Decode.baseMarks.find? (fun m => m.1 == ['0', entry.1]) =
        some (['0', entry.1], entry.2.1) := by
  decide

theorem integer_of_mark (text : String) (mark : Char) (base : Nat) (inClass : Char → Bool)
    (body : List Char) (hclass : (mark, base, inClass) ∈ markedClasses)
    (htext : text.toList = '0' :: mark :: body) (hbody : ∀ c ∈ body, inClass c = true) :
    Decode.integer text =
      (readUnsigned base (.malformed 0 (withoutBars text)) (body.filter (· != '_'))).map
        Int.ofNat := by
  obtain ⟨hbar, hblank, -, -, hfind⟩ := mark_of_class _ hclass
  have hdigits : text.toList.filter (· != '_') = '0' :: mark :: body.filter (· != '_') := by
    simp [htext, hbar]
  have htrim : trimNumeral ('0' :: mark :: body.filter (· != '_')) =
      '0' :: mark :: body.filter (· != '_') := by
    refine trimNumeral_of_not_blank _ fun c hc => ?_
    simp only [List.mem_cons] at hc
    rcases hc with rfl | rfl | hc
    · decide
    · exact hblank
    · exact (digit_of_mem_filter base inClass (mem_numeralClasses hclass) body hbody c hc).2.2
  simp only [Decode.integer, withoutBars, hdigits, List.take_succ_cons, List.take_zero, hfind,
    readBased, String.toList_ofList, htrim, List.drop_succ_cons, List.drop_zero]

theorem integer_of_digits (text : String) (h : ∀ c ∈ text.toList, isDigitOrBar c = true) :
    Decode.integer text =
      (readUnsigned 10 (.malformed 10 (withoutBars text)) (text.toList.filter (· != '_'))).map
        Int.ofNat := by
  have hdigits : ∀ c ∈ text.toList.filter (· != '_'), c.isDigit = true := by
    intro c hc
    obtain ⟨hmem, hbar⟩ := List.mem_filter.mp hc
    have hc := h c hmem
    rw [isDigitOrBar, Bool.or_eq_true] at hc
    exact hc.resolve_right (by simpa using hbar)
  have hfind : Decode.baseMarks.find?
      (fun m => m.1 == (text.toList.filter (· != '_')).take 2) = none := by
    refine List.find?_eq_none.mpr fun m hm he => ?_
    have hmarks : ∀ m ∈ Decode.baseMarks, m.1.all Char.isDigit = false := by decide
    have hletter := hmarks m hm
    rw [beq_iff_eq.mp he, List.all_eq_true.mpr fun c hc => hdigits c (List.mem_of_mem_take hc)]
      at hletter
    cases hletter
  simp only [Decode.integer, hfind]
  exact readInt_eq_readUnsigned _ hdigits

theorem ofText_of_mark (mark : Char) (base : Nat) (inClass : Char → Bool) (body : List Char)
    (hclass : (mark, base, inClass) ∈ markedClasses) :
    Numeral.ofText ('0' :: mark :: body) = ⟨base, body⟩ := by
  simp only [markedClasses, List.mem_cons, List.not_mem_nil, or_false, Prod.mk.injEq] at hclass
  rcases hclass with ⟨rfl, rfl, -⟩ | ⟨rfl, rfl, -⟩ | ⟨rfl, rfl, -⟩ <;> rfl

theorem ofText_of_digits (cs : List Char) (h : ∀ c ∈ cs, isDigitOrBar c = true) :
    Numeral.ofText cs = ⟨10, cs⟩ := by
  have hmark : ∀ mark, isDigitOrBar mark = false → mark ∉ cs := by
    intro mark hmark hmem
    rw [h mark hmem] at hmark
    cases hmark
  unfold Numeral.ofText
  split
  · exact absurd (by simp) (hmark 'x' (by decide))
  · exact absurd (by simp) (hmark 'o' (by decide))
  · exact absurd (by simp) (hmark 'b' (by decide))
  · rfl

/-- An integer token is read as the positional value of its digits, which are digits of its base.
It is not read if it has a mark and no digits behind it, or if it has no mark and too many digits. -/
theorem integer_token_value (before : Option Char) (text : String)
    (h : Terminal.integer before text.toList = some text.toList.length) :
    let numeral := Numeral.ofText text.toList
    (∀ d ∈ numeral.digits, d < numeral.base) ∧
      Decode.integer text =
        if numeral.base ≠ 10 ∧ numeral.isBare then
          .error (.malformed 0 (withoutBars text))
        else if numeral.base = 10 ∧ digitLimit < numeral.digits.length then
          .error (.tooLong numeral.digits.length)
        else .ok numeral.value := by
  rcases integer_token_inv before text.toList h with
    ⟨mark, base, inClass, body, hmarked, htext, hbody⟩ | ⟨c, rest, htext, hc, hrest⟩
  · have hclass := mem_numeralClasses hmarked
    obtain ⟨-, -, hten, hlimited, -⟩ := mark_of_class _ hmarked
    dsimp only at hten hlimited
    rw [integer_of_mark text mark base inClass body hmarked htext hbody,
      readUnsigned_of_class base inClass hclass body hbody, htext,
      ofText_of_mark mark base inClass body hmarked]
    refine ⟨digits_lt base inClass hclass body hbody, ?_⟩
    simp only [hten, hlimited, ne_eq, not_false_eq_true, true_and, false_and, if_false,
      Bool.false_and, Bool.false_eq_true]
    split <;> rfl
  · have hall : ∀ c ∈ text.toList, isDigitOrBar c = true := by
      rw [htext]
      refine List.forall_mem_cons.mpr ⟨?_, hrest⟩
      rw [isDigitOrBar, hc, Bool.true_or]
    have hclass : (10, isDigitOrBar) ∈ numeralClasses := by simp [numeralClasses]
    have hdigit : ¬ (Numeral.mk 10 text.toList).isBare = true := by
      intro hbare
      have hbar := List.all_eq_true.mp hbare c (htext ▸ List.mem_cons_self)
      rw [beq_iff_eq.mp hbar] at hc
      cases hc
    rw [integer_of_digits text hall, ofText_of_digits text.toList hall,
      readUnsigned_of_class 10 isDigitOrBar hclass text.toList hall, if_neg hdigit]
    refine ⟨digits_lt 10 isDigitOrBar hclass text.toList hall, ?_⟩
    simp only [isLimited, ne_eq, not_true_eq_false, false_and, if_false, true_and,
      beq_self_eq_true, Bool.true_and, decide_eq_true_eq]
    split <;> rfl

theorem integer_token_value_underscores :
    Terminal.integer none "0x_1F_".toList = some "0x_1F_".toList.length ∧
      Decode.integer "0x_1F_" = .ok 31 ∧
      Terminal.integer none "0_08_".toList = some "0_08_".toList.length ∧
      Decode.integer "0_08_" = .ok 8 ∧
      Terminal.integer none "0b__".toList = some "0b__".toList.length ∧
      Decode.integer "0b__" = .error (.malformed 0 "0b") := by
  have hhex : Terminal.integer none "0x_1F_".toList = some "0x_1F_".toList.length := by decide
  have hten : Terminal.integer none "0_08_".toList = some "0_08_".toList.length := by decide
  have hbare : Terminal.integer none "0b__".toList = some "0b__".toList.length := by decide
  refine ⟨hhex, ?_, hten, ?_, hbare, ?_⟩
  · rw [(integer_token_value none _ hhex).2]
    rfl
  · rw [(integer_token_value none _ hten).2]
    rfl
  · rw [(integer_token_value none _ hbare).2]
    rfl

end LineScope.Grammar
