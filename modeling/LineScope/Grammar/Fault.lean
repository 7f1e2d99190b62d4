import LineScope.Number.Integer

/-!
# Tokens without a value

A token has the form that the grammar asks for and may still denote no value: a numeral can be too
long, or have a base mark and no digits.
-/

namespace LineScope.Grammar

open LineScope.Number

/-- Why the text of a token denotes no value. -/
inductive DecodeError where
  | integer (fault : Number.Fault)
  | notANumber (text : String)
  /-- A character token holds this many characters instead of one. -/
  | notOneCharacter (count : Nat)
  | tooShort
  | unclosed
deriving DecidableEq, Repr

/-- The wording of a decoding error. -/
def DecodeError.message : DecodeError → String
  | .integer fault => fault.message
  | .notANumber text => "could not convert string to float: " ++ Text.quote text
  | .notOneCharacter count =>
    "ord() expected a character, but string of length " ++ toString count ++ " found"
  | .tooShort => "string index out of range"
  | .unclosed => "substring not found"

/-- A token without a value: the kind of token, the reason and the line. -/
structure Fault where
  kind : String
  error : DecodeError
  line : Nat
deriving DecidableEq, Repr

/-- The wording of a fault. -/
def Fault.message (fault : Fault) : String :=
  "invalid " ++ fault.kind ++ ": " ++ fault.error.message

end LineScope.Grammar
