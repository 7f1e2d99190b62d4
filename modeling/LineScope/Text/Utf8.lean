import LineScope.Text.Quoted

/-!
# UTF-8

Bytes read strictly as UTF-8: overlong forms, surrogates and numbers beyond the last code point are
faults, and a fault tells which bytes are to blame.
-/

namespace LineScope.Text

/-- What is wrong with bytes that are not UTF-8. -/
inductive Utf8Problem where
  | badStart | badContinuation | cutOff
deriving DecidableEq, Repr

/-- A fault: where it begins, how many bytes it takes, the first of them, and the problem. -/
structure Utf8Fault where
  position : Nat
  width : Nat
  first : UInt8
  problem : Utf8Problem
deriving DecidableEq, Repr

/-- The wording of a problem. -/
def Utf8Problem.message : Utf8Problem → String
  | .badStart => "invalid start byte"
  | .badContinuation => "invalid continuation byte"
  | .cutOff => "unexpected end of data"

/-- The wording of a fault. -/
def Utf8Fault.message (fault : Utf8Fault) : String :=
  let place :=
    if fault.width = 1 then
      "byte 0x" ++ String.ofList (hexDigits 2 fault.first.toNat) ++ " in position " ++
        toString fault.position
    else
      "bytes in position " ++ toString fault.position ++ "-" ++
        toString (fault.position + fault.width - 1)
  "'utf-8' codec can't decode " ++ place ++ ": " ++ fault.problem.message

/-- A byte that goes on with a character. -/
def isContinuation (b : UInt8) : Bool := 0x80 ≤ b && b < 0xc0

/-- The number of bytes of the character that a byte starts. -/
def characterWidth? (b : UInt8) : Option Nat :=
  if b < 0x80 then some 1
  else if 0xc2 ≤ b && b < 0xe0 then some 2
  else if 0xe0 ≤ b && b < 0xf0 then some 3
  else if 0xf0 ≤ b && b < 0xf5 then some 4
  else none

/-- Whether a second byte fits a first one; some first bytes allow only a part of the range. -/
def fitsSecond (first second : UInt8) : Bool :=
  isContinuation second &&
    !(first == 0xe0 && second < 0xa0) && !(first == 0xed && 0xa0 ≤ second) &&
    !(first == 0xf0 && second < 0x90) && !(first == 0xf4 && 0x90 ≤ second)

/-- How many of the bytes that go on with a character are in place. -/
def continuations (first : UInt8) (count : Nat) (bytes : List UInt8) : Nat :=
  match bytes.take count with
  | [] => 0
  | second :: more =>
    if fitsSecond first second then (more.takeWhile isContinuation).length + 1 else 0

/-- The bits of a byte that goes on with a character. -/
def lowBits (b : UInt8) : Nat := b.toNat % 64

/-- The character of a first byte and the bytes that go on with it. -/
def characterOf (first : UInt8) (more : List UInt8) : Char :=
  let high :=
    match more.length with
    | 0 => first.toNat
    | 1 => first.toNat % 32
    | 2 => first.toNat % 16
    | _ => first.toNat % 8
  Char.ofNat (more.foldl (fun n b => n * 64 + lowBits b) high)

/-- Reads bytes from a position on; the first `pending` bytes belong to the character before. -/
def decodeFrom (position : Nat) : (pending : Nat) → List UInt8 → Except Utf8Fault (List Char)
  | _, [] => .ok []
  | pending + 1, _ :: bytes => decodeFrom (position + 1) pending bytes
  | 0, first :: bytes =>
    match characterWidth? first with
    | none => .error ⟨position, 1, first, .badStart⟩
    | some width =>
      let found := continuations first (width - 1) bytes
      if found = width - 1 then
        (decodeFrom (position + 1) found bytes).map (characterOf first (bytes.take found) :: ·)
      else if bytes.length = found then .error ⟨position, found + 1, first, .cutOff⟩
      else .error ⟨position, found + 1, first, .badContinuation⟩

/-- The characters of bytes that are UTF-8. -/
def decodeUtf8 (bytes : List UInt8) : Except Utf8Fault (List Char) := decodeFrom 0 0 bytes

end LineScope.Text
