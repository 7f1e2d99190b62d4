import LineScope.Number.Power
import LineScope.Text.Digit
import LineScope.Text.Space
import LineScope.Text.Quoted

/-!
# Reading integers

An integer is written with an optional sign and the digits of any script, between blanks; single
underscores may separate digits.  Decimal numerals are limited in length, because the work of
reading them grows faster than their size; numerals in base two, eight and sixteen are not.
-/

namespace LineScope.Number

open LineScope.Text

/-- The greatest number of digits of a decimal numeral that is read or written. -/
def digitLimit : Nat := 4300

/-- Why a text is not an integer. -/
inductive Fault where
  /-- The text is no numeral of the base; base zero stands for "as the numeral itself says". -/
  | malformed (base : Nat) (text : String)
  /-- The numeral has more digits than the limit. -/
  | tooLong (digits : Nat)
deriving DecidableEq, Repr

/-- The wording of the complaint about a text that is no numeral; of the quoted text at most 200
characters are shown. -/
def malformedMessage (base : Nat) (quoted : String) : String :=
  "invalid literal for int() with base " ++ toString base ++ ": " ++
    String.ofList (quoted.toList.take 200)

/-- The wording of a fault. -/
def Fault.message : Fault → String
  | .malformed base text => malformedMessage base (quote text)
  | .tooLong digits =>
    "Exceeds the limit (4300 digits) for integer string conversion: value has " ++
      toString digits ++ " digits; use sys.set_int_max_str_digits() to increase the limit"

/-! ### Digits -/

/-- The value of an ASCII letter as a digit beyond nine. -/
def letterValue? (c : Char) : Option Nat :=
  if c.isLower then some (c.toNat - 87)
  else if c.isUpper then some (c.toNat - 55)
  else none

/-- The value of a digit of a base. -/
def digitValue? (base : Nat) (c : Char) : Option Nat :=
  ((decimalValue? c).or (letterValue? c)).filter (· < base)

/-- The number that a row of digits denotes, most significant digit first. -/
def positional (base : Nat) (digits : List Nat) : Nat :=
  digits.foldl (fun n d => n * base + d) 0

/-- Digits with single underscores between them. -/
def wellSeparated : List Char → Bool
  | [] => false
  | ['_'] => false
  | [_] => true
  | '_' :: _ => false
  | _ :: '_' :: cs => wellSeparated cs
  | _ :: cs => wellSeparated cs

/-- Whether a base is limited in length: the powers of two are not. -/
def isLimited (base : Nat) : Bool := base == 10

/-- Reads an unsigned numeral of a base that must fill the text; `report` builds the fault that a
malformed numeral gives. -/
def readUnsigned (base : Nat) (malformed : Fault) (cs : List Char) : Except Fault Nat :=
  let run := cs.takeWhile fun c => c == '_' || (digitValue? base c).isSome
  let digits := run.filterMap (digitValue? base)
  if !wellSeparated run then .error malformed
  else if isLimited base && digitLimit < digits.length then .error (.tooLong digits.length)
  else if run.length < cs.length then .error malformed
  else .ok (positional base digits)

/-- A numeral that is not read is malformed or too long. -/
theorem readUnsigned_error (base : Nat) (malformed fault : Fault) (cs : List Char)
    (h : readUnsigned base malformed cs = .error fault) :
    fault = malformed ∨ ∃ digits, fault = .tooLong digits := by
  unfold readUnsigned at h
  dsimp only at h
  split at h
  · cases h
    exact .inl rfl
  · split at h
    · cases h
      exact .inr ⟨_, rfl⟩
    · split at h
      · cases h
        exact .inl rfl
      · cases h

/-! ### Signed integers -/

/-- The blanks that may stand around a numeral. -/
def isNumeralBlank (c : Char) : Bool := isSpace c && !(28 ≤ c.toNat && c.toNat ≤ 31)

/-- A text without the blanks around a numeral. -/
def trimNumeral (cs : List Char) : List Char :=
  dropRight isNumeralBlank (cs.dropWhile isNumeralBlank)

/-- Reads a decimal integer. -/
def readInt (text : String) : Except Fault Int :=
  let malformed := Fault.malformed 10 text
  match trimNumeral text.toList with
  | '-' :: cs => (readUnsigned 10 malformed cs).map fun n => -(n : Int)
  | '+' :: cs => (readUnsigned 10 malformed cs).map Int.ofNat
  | cs => (readUnsigned 10 malformed cs).map Int.ofNat

/-- A malformed numeral is reported with the text itself. -/
theorem readInt_error (text : String) (fault : Fault) (h : readInt text = .error fault) :
    fault = .malformed 10 text ∨ ∃ digits, fault = .tooLong digits := by
  unfold readInt at h
  dsimp only at h
  split at h
  all_goals
    generalize hread : readUnsigned 10 (.malformed 10 text) _ = result at h
    cases result with
    | ok n => cases h
    | error other =>
      cases h
      exact readUnsigned_error 10 _ _ _ hread

/-- Reads digits that follow a base mark such as `0x`; `text` is the whole numeral. -/
def readBased (base : Nat) (text : String) : Except Fault Nat :=
  readUnsigned base (.malformed 0 text) ((trimNumeral text.toList).drop 2)

/-- Whether an integer can be written within the digit limit. -/
def isWritable (n : Int) : Bool := n.natAbs < tenPow digitLimit

end LineScope.Number
