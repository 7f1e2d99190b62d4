import LineScope.Json.Value
import LineScope.Number.Decimal

/-!
# Reading JSON

A reader that tells what it expected and where.  Of members with the same name the last one counts,
at the place of the first.  Escapes that spell the two halves of a pair of UTF-16 units make one
character; a half that stands alone stays a code point of its own.
-/

namespace LineScope.Json

open LineScope.Text LineScope.Number

/-- Why a text is not JSON: a complaint about a position, or a numeral that is too long. -/
inductive ReadError where
  | unexpected (complaint : String) (position : Nat)
  | numeral (fault : Number.Fault)
deriving DecidableEq, Repr

/-- The wording of an error in a document. -/
def ReadError.message (document : List Char) : ReadError → String
  | .numeral fault => fault.message
  | .unexpected complaint position =>
    let before := document.take position
    let line := before.count '\n' + 1
    let column := (before.reverse.takeWhile (· != '\n')).length + 1
    complaint ++ ": line " ++ toString line ++ " column " ++ toString column ++
      " (char " ++ toString position ++ ")"

/-- A position in a document and the text from there on. -/
structure Place where
  position : Nat
  rest : List Char

namespace Place

/-- The place a number of characters further on. -/
def skip (place : Place) (n : Nat) : Place := ⟨place.position + n, place.rest.drop n⟩

/-- A blank between tokens. -/
def isBlank (c : Char) : Bool := c == ' ' || c == '\t' || c == '\n' || c == '\r'

/-- The place behind the blanks. -/
def skipBlanks (place : Place) : Place := place.skip (place.rest.takeWhile isBlank).length

/-- A complaint about the place. -/
def complain {α : Type} (place : Place) (complaint : String) : Except ReadError α :=
  .error (.unexpected complaint place.position)

end Place

/-! ### Strings -/

/-- The character of a short escape. -/
def shortEscape? (c : Char) : Option Char :=
  match c with
  | '"' => some '"'
  | '\\' => some '\\'
  | '/' => some '/'
  | 'b' => some '\x08'
  | 'f' => some '\x0c'
  | 'n' => some '\n'
  | 'r' => some '\r'
  | 't' => some '\t'
  | _ => none

/-- The value of an ASCII digit in base sixteen. -/
def hexValue? (c : Char) : Option Nat := if c.toNat < 128 then digitValue? 16 c else none

/-- The value of four digits in base sixteen, which something must follow. -/
def unit? (cs : List Char) : Option Nat :=
  let digits := cs.take 4
  let values := digits.filterMap hexValue?
  if values.length = 4 ∧ 4 < cs.length then some (positional 16 values) else none

/-- Reads a string behind its opening quote, which is at `opening`. -/
def stringFrom (opening : Nat) :
    (fuel : Nat) → Place → List CodePoint → Except ReadError (List CodePoint × Place)
  | 0, _, _ => .error (.unexpected "Unterminated string starting at" opening)
  | fuel + 1, place, read =>
    match place.rest with
    | [] => .error (.unexpected "Unterminated string starting at" opening)
    | '"' :: _ => .ok (read.reverse, place.skip 1)
    | '\\' :: [] => .error (.unexpected "Unterminated string starting at" opening)
    | '\\' :: 'u' :: cs =>
      match unit? cs with
      | none => place.skip 1 |>.complain "Invalid \\uXXXX escape"
      | some high =>
        let behind := place.skip 6
        match isHighUnit high, behind.rest with
        | true, '\\' :: 'u' :: more =>
          if more.length ≤ 4 then stringFrom opening fuel behind (.ofUnit high :: read)
          else
            match unit? more with
            | none => behind.skip 1 |>.complain "Invalid \\uXXXX escape"
            | some low =>
              if isLowUnit low then
                stringFrom opening fuel (behind.skip 6) (.ofPair high low :: read)
              else stringFrom opening fuel behind (.ofUnit high :: read)
        | _, _ => stringFrom opening fuel behind (.ofUnit high :: read)
    | '\\' :: e :: _ =>
      match shortEscape? e with
      | some c => stringFrom opening fuel (place.skip 2) (.char c :: read)
      | none => place.complain "Invalid \\escape"
    | c :: _ =>
      if c.toNat < 32 then place.complain "Invalid control character at"
      else stringFrom opening fuel (place.skip 1) (.char c :: read)

/-- Reads a string at its opening quote. -/
def readString (place : Place) : Except ReadError (List CodePoint × Place) :=
  stringFrom place.position (place.rest.length + 1) (place.skip 1) []

/-! ### Numbers -/

/-- The width of a sign. -/
def signWidth (cs : List Char) : Nat := if cs.head? = some '-' then 1 else 0

/-- The width of the digits before the point. -/
def wholeWidth (cs : List Char) : Nat :=
  match cs with
  | '0' :: _ => 1
  | cs => (cs.takeWhile Char.isDigit).length

/-- The width of a point and the digits behind it. -/
def fractionWidth : List Char → Nat
  | '.' :: cs =>
    let width := (cs.takeWhile Char.isDigit).length
    if width = 0 then 0 else width + 1
  | _ => 0

/-- The width of an exponent. -/
def exponentWidth : List Char → Nat
  | e :: cs =>
    if e = 'e' ∨ e = 'E' then
      let sign := if cs.head?.any fun s => s == '+' || s == '-' then 1 else 0
      let width := ((cs.drop sign).takeWhile Char.isDigit).length
      if width = 0 then 0 else width + sign + 1
    else 0
  | [] => 0

/-- Reads a number. -/
def readNumber (place : Place) : Except ReadError (Json × Place) :=
  let cs := place.rest
  let sign := signWidth cs
  let whole := wholeWidth (cs.drop sign)
  if whole = 0 then place.complain "Expecting value"
  else
    let width := sign + whole
    let fraction := fractionWidth (cs.drop width)
    let exponent := exponentWidth (cs.drop (width + fraction))
    if fraction + exponent = 0 then
      match readInt (String.ofList (cs.take width)) with
      | .ok n => .ok (.int n, place.skip width)
      | .error fault => .error (.numeral fault)
    else
      let width := width + fraction + exponent
      .ok (.float ((Binary64.read? (String.ofList (cs.take width))).getD .undefined),
        place.skip width)

/-! ### Values -/

/-- The words that are values. -/
def words : List (String × Json) :=
  [("null", .null), ("true", .bool true), ("false", .bool false), ("NaN", .float .undefined),
    ("Infinity", .float (.infinite false)), ("-Infinity", .float (.infinite true))]

/-- Reads the items of an array behind its bracket or a comma. -/
def itemsFrom (value : Place → Except ReadError (Json × Place)) :
    (fuel : Nat) → Place → List Json → Except ReadError (List Json × Place)
  | 0, place, _ => place.complain "Expecting value"
  | fuel + 1, place, read => do
    let (item, place) ← value place.skipBlanks
    let place := place.skipBlanks
    match place.rest with
    | ']' :: _ => return ((item :: read).reverse, place.skip 1)
    | ',' :: _ => itemsFrom value fuel (place.skip 1) (item :: read)
    | _ => place.complain "Expecting ',' delimiter"

/-- Reads the members of an object behind its brace or a comma. -/
def membersFrom (value : Place → Except ReadError (Json × Place)) :
    (fuel : Nat) → Place → Table (List CodePoint) Json →
      Except ReadError (Table (List CodePoint) Json × Place)
  | 0, place, _ => place.complain "Expecting property name enclosed in double quotes"
  | fuel + 1, place, read => do
    let place := place.skipBlanks
    if place.rest.head? ≠ some '"' then
      place.complain "Expecting property name enclosed in double quotes"
    else
      let (key, place) ← readString place
      let place := place.skipBlanks
      if place.rest.head? ≠ some ':' then place.complain "Expecting ':' delimiter"
      else
        let (item, place) ← value (place.skip 1).skipBlanks
        let place := place.skipBlanks
        let read := read.set key item
        match place.rest with
        | '\x7d' :: _ => return (read, place.skip 1)
        | ',' :: _ => membersFrom value fuel (place.skip 1) read
        | _ => place.complain "Expecting ',' delimiter"

/-- Reads a value nested at most `depth` deep. -/
def readValue : (depth : Nat) → Place → Except ReadError (Json × Place)
  | 0, place => place.complain "Expecting value"
  | depth + 1, place =>
    match place.rest with
    | '"' :: _ => (readString place).map fun found => (.string found.1, found.2)
    | '[' :: _ =>
      let inside := (place.skip 1).skipBlanks
      match inside.rest with
      | ']' :: _ => .ok (.array [], inside.skip 1)
      | rest =>
        (itemsFrom (readValue depth) (rest.length + 1) inside []).map fun found =>
          (.array found.1, found.2)
    | '\x7b' :: _ =>
      let inside := (place.skip 1).skipBlanks
      match inside.rest with
      | '\x7d' :: _ => .ok (.object .empty, inside.skip 1)
      | rest =>
        (membersFrom (readValue depth) (rest.length + 1) inside .empty).map fun found =>
          (.object found.1, found.2)
    | cs =>
      match words.find? fun word => word.1.toList.isPrefixOf cs with
      | some (word, value) => .ok (value, place.skip word.length)
      | none => readNumber place

/-- Reads a document that is one value. -/
def read (document : List Char) : Except ReadError Json :=
  if document.head? = some '\ufeff' then
    .error (.unexpected "Unexpected UTF-8 BOM (decode using utf-8-sig)" 0)
  else do
    let (value, place) ← readValue (document.length + 1) (Place.mk 0 document).skipBlanks
    let place := place.skipBlanks
    if place.rest.isEmpty then return value else place.complain "Extra data"

end LineScope.Json
