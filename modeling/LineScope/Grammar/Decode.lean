import LineScope.Grammar.Fault
import LineScope.Node.Basic
import LineScope.Number.Decimal
import LineScope.Text.Lines

/-!
# Values of tokens

What the text of a literal token denotes.
-/

namespace LineScope.Grammar.Decode

open LineScope.Number LineScope.Text

/-! ### Numbers -/

/-- The bases that a numeral can name. -/
def baseMarks : List (List Char × Nat) := [(['0', 'x'], 16), (['0', 'o'], 8), (['0', 'b'], 2)]

/-- An integer: underscores do not count, and `0x`, `0o` and `0b` name another base than ten. -/
def integer (text : String) : Except Number.Fault Int :=
  let digits := text.toList.filter (· != '_')
  match baseMarks.find? fun mark => mark.1 == digits.take 2 with
  | some mark => (readBased mark.2 (String.ofList digits)).map Int.ofNat
  | none => readInt (String.ofList digits)

/-- A floating-point number; underscores do not count. -/
def float (text : String) : Except DecodeError Binary64 :=
  let digits := String.ofList (text.toList.filter (· != '_'))
  match Binary64.read? digits with
  | some value => .ok value
  | none => .error (.notANumber digits)

/-- The number of the placeholder `&1`. -/
def captureArg (text : String) : Except Number.Fault Int :=
  readInt (String.ofList (text.toList.drop 1))

/-! ### Escapes -/

/-- The character that a letter behind a backslash stands for; others stand for themselves. -/
def escaped (c : Char) : Char :=
  match c with
  | 'n' => '\n'
  | 't' => '\t'
  | 'r' => '\r'
  | 's' => ' '
  | '0' => '\x00'
  | 'a' => '\x07'
  | 'b' => '\x08'
  | 'e' => '\x1b'
  | 'f' => '\x0c'
  | 'v' => '\x0b'
  | c => c

/-- A text with its escapes resolved.  An escaped line feed disappears, and a backslash at the end
stands for itself. -/
def unescape : List Char → List Char
  | [] => []
  | c :: cs =>
    if c = '\\' then
      match cs with
      | [] => [c]
      | e :: rest => if e = '\n' then unescape rest else escaped e :: unescape rest
    else c :: unescape cs

/-- A text without its first and last characters. -/
def inside (width : Nat) (cs : List Char) : List Char := (cs.take (cs.length - width)).drop width

/-- The code point of a character token. -/
def char (text : String) : Except DecodeError Int :=
  match text.toList.drop 1 with
  | '\\' :: e :: _ => .ok (escaped e).toNat
  | [c] => .ok c.toNat
  | cs => .error (.notOneCharacter cs.length)

/-- The value of a quoted text. -/
def quoted (text : String) : String := String.ofList (unescape (inside 1 text.toList))

/-- The text of a name that may be quoted. -/
def nameText (cs : List Char) : String :=
  match cs with
  | '"' :: _ => String.ofList (unescape (inside 1 cs))
  | _ => String.ofList cs

/-- The name of an atom. -/
def atom (text : String) : String := nameText (text.toList.drop 1)

/-- The name of a keyword key. -/
def keywordKey (text : String) : String := nameText text.toList.dropLast

/-! ### Heredocs -/

/-- A text without the line end that it starts with. -/
def dropLineEnd : List Char → List Char
  | '\r' :: '\n' :: cs => cs
  | '\n' :: cs => cs
  | cs => cs

/-- A line without an indentation: all of it if the line starts so, else whatever indentation there
is. -/
def outdent (indent line : List Char) : List Char :=
  if indent.isPrefixOf line then line.drop indent.length else line.dropWhile isIndent

/-- The body of a heredoc: without the delimiters, and every line without the indentation of the
closing delimiter if that stands on a line of its own. -/
def heredocBody (text : List Char) : List Char :=
  let body := dropLineEnd (inside 3 text)
  if !body.contains '\n' then body
  else
    let indent := (body.reverse.takeWhile (· != '\n')).reverse
    let lines := body.take (body.length - indent.length)
    if !indent.all isIndent then body
    else if indent.isEmpty then lines
    else (displayLines lines).flatMap fun line => outdent indent (line.text ++ line.ending)

/-- The value of a heredoc. -/
def heredoc (text : String) : String := String.ofList (unescape (heredocBody text.toList))

/-! ### Sigils -/

/-- The parts of a sigil. -/
structure Sigil where
  letter : Char
  content : String
  modifiers : String
deriving DecidableEq, Repr

/-- The character that closes what another opens. -/
def closer (c : Char) : Char :=
  match c with
  | '(' => ')'
  | '[' => ']'
  | '\x7b' => '\x7d'
  | '<' => '>'
  | c => c

/-- The position of the last occurrence of a text in another. -/
def lastIndexOf? (part : List Char) : List Char → Option Nat
  | [] => if part.isEmpty then some 0 else none
  | c :: cs =>
    match lastIndexOf? part cs with
    | some i => some (i + 1)
    | none => if part.isPrefixOf (c :: cs) then some 0 else none

/-- The delimiter that closes the text behind a sigil's letter. -/
def sigilCloser : List Char → Option (List Char)
  | '"' :: '"' :: '"' :: _ => some ['"', '"', '"']
  | '\'' :: '\'' :: '\'' :: _ => some ['\'', '\'', '\'']
  | c :: _ => some [closer c]
  | [] => none

/-- Splits a sigil; its content reaches to the last closing delimiter. -/
def sigil (text : String) : Except DecodeError Sigil :=
  match text.toList with
  | _ :: letter :: rest =>
    match sigilCloser rest with
    | none => .error .tooShort
    | some close =>
      match lastIndexOf? close rest with
      | none => .error .unclosed
      | some i =>
        .ok ⟨letter, String.ofList ((rest.take i).drop close.length),
          String.ofList (rest.drop (i + close.length))⟩
  | _ => .error .tooShort

end LineScope.Grammar.Decode
