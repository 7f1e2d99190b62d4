import LineScope.Grammar.Rule
import LineScope.Text.Space
import LineScope.Text.Word

/-!
# Terminals

The tokens of the language.  Each terminal has one match at a position or none.  A keyword ends
where a name could not go on, and brackets are told apart by the character before them.
-/

namespace LineScope.Grammar.Terminal

open LineScope.Text

/-! ### Fixed texts and keywords -/

/-- The width of a fixed text. -/
def textWidth (text : String) (cs : List Char) : Option Nat :=
  if text.toList.isPrefixOf cs then some text.length else none

/-- A fixed text that none of the given characters follows. -/
def textNotBefore (text : String) (stops : List Char) (cs : List Char) : Option Nat :=
  match textWidth text cs with
  | none => none
  | some width => if (cs.drop width).head?.any stops.contains then none else some width

/-- A character that lets a name or keyword go on. -/
def continuesWord (c : Char) : Bool := isWord c || c == '?' || c == '!' || c == ':'

/-- The width of a keyword, which ends where a name could not go on. -/
def keywordWidth (word : String) (cs : List Char) : Option Nat :=
  match textWidth word cs with
  | none => none
  | some width => if (cs.drop width).head?.any continuesWord then none else some width

/-- A terminal with a fixed text. -/
def fixed (text : String) : Terminal := fun _ cs => textWidth text cs

/-- A keyword. -/
def keyword (word : String) : Terminal := fun _ cs => keywordWidth word cs

/-- The labels that divide a block into sections. -/
def blockLabels : List String := ["else", "after", "rescue", "catch"]

/-- A block label. -/
def blockLabel : Terminal := fun _ cs => blockLabels.findSome? fun word => keywordWidth word cs

/-- The words that are never names. -/
def reserved : List String :=
  ["do", "end", "fn", "true", "false", "nil", "when", "and", "or", "not", "in"] ++ blockLabels

/-! ### Names -/

/-- A letter, a digit or an underscore, all of them ASCII. -/
def isNameChar (c : Char) : Bool := c.isAlphanum || c == '_'

/-- The width of the characters of a class at the front of a text. -/
def runWidth (p : Char → Bool) (cs : List Char) : Nat := (cs.takeWhile p).length

/-- The width of a name without regard to reserved words: a first character, more of them, and a
question or exclamation mark at the end. -/
def nameWidth (first more : Char → Bool) : List Char → Option Nat
  | [] => none
  | c :: cs =>
    if first c then
      let width := runWidth more cs
      if (cs.drop width).head?.any fun m => m == '?' || m == '!' then some (width + 2)
      else some (width + 1)
    else none

/-- A name of a variable or function. -/
def name : Terminal := fun _ cs =>
  if reserved.any fun word => (keywordWidth word cs).isSome then none
  else nameWidth (fun c => c.isLower || c == '_') isNameChar cs

/-- A segment of a module name. -/
def aliasSegment : Terminal := fun _ cs =>
  match cs with
  | [] => none
  | c :: cs => if c.isUpper then some (runWidth isNameChar cs + 1) else none

/-! ### Delimited texts -/

/-- The width up to the closing character.  A backslash takes the next character with it, if that
is one that may be escaped; other characters must be plain. -/
def closingWidth (close : Char) (plain escaped : Char → Bool) : List Char → Option Nat
  | [] => none
  | c :: cs =>
    if c = '\\' then
      match cs with
      | [] => none
      | e :: rest =>
        if escaped e then (closingWidth close plain escaped rest).map (· + 2) else none
    else if c = close then some 1
    else if plain c then (closingWidth close plain escaped cs).map (· + 1)
    else none

/-- Every character. -/
def anyChar (_ : Char) : Bool := true

/-- Every character but the line feed. -/
def inLine (c : Char) : Bool := c != '\n'

/-- A quoted text in which no backslash stands before a line feed. -/
def quotedWidth : List Char → Option Nat
  | '"' :: cs => (closingWidth '"' anyChar inLine cs).map (· + 1)
  | _ => none

/-- The width up to the closing quote of a text that may hold interpolations.  An interpolation
runs to the next closing brace and may hold quotes; where reading it as one leaves the text
unclosed, its first character is an ordinary one. -/
def interpolatedWidth (close : Char) : (inHole : Bool) → List Char → Option Nat
  | _, [] => none
  | true, c :: cs => (interpolatedWidth close (c != '\x7d') cs).map (· + 1)
  | false, c :: cs =>
    if c = '\\' then
      match cs with
      | [] => none
      | _ :: rest => (interpolatedWidth close false rest).map (· + 2)
    else if c = close then some 1
    else if c = '#' ∧ cs.head? = some '\x7b' then
      match interpolatedWidth close true cs with
      | some width => some (width + 1)
      | none => (interpolatedWidth close false cs).map (· + 1)
    else (interpolatedWidth close false cs).map (· + 1)

/-- Three quotes. -/
def threeOf (mark : Char) : List Char := [mark, mark, mark]

/-- The width up to the first three quotes, these included. -/
def threeClosingWidth (mark : Char) : List Char → Option Nat
  | [] => none
  | c :: cs =>
    if (threeOf mark).isPrefixOf (c :: cs) then some 3
    else (threeClosingWidth mark cs).map (· + 1)

/-- The width of a text between three quotes on either side. -/
def heredocWidth (mark : Char) (cs : List Char) : Option Nat :=
  if (threeOf mark).isPrefixOf cs then (threeClosingWidth mark (cs.drop 3)).map (· + 3) else none

/-- A text between three quotes. -/
def heredoc (mark : Char) : Terminal := fun _ cs => heredocWidth mark cs

/-- A text between quotes, which are not three. -/
def quotedText (mark : Char) : Terminal := fun _ cs =>
  match cs with
  | [] => none
  | c :: rest =>
    if c = mark && !(threeOf mark).isPrefixOf cs then
      (interpolatedWidth mark false rest).map (· + 1)
    else none

/-- The delimiters of a sigil besides three quotes: the opening and the closing character, and the
characters that may stand between them. -/
def sigilDelimiters : List (Char × Char × (Char → Bool)) :=
  [('/', '/', inLine), ('|', '|', inLine), ('"', '"', anyChar), ('\'', '\'', anyChar),
    ('(', ')', anyChar), ('[', ']', anyChar), ('\x7b', '\x7d', anyChar), ('<', '>', anyChar)]

/-- The width of a text between one pair of sigil delimiters. -/
def sigilBodyWidth (cs : List Char) : Option Nat :=
  sigilDelimiters.findSome? fun (opening, close, plain) =>
    match cs with
    | [] => none
    | c :: rest =>
      if c = opening then (closingWidth close plain inLine rest).map (· + 1) else none

/-- The width of a sigil: a tilde, a letter, a delimited text and letters. -/
def sigilWidth : List Char → Option Nat
  | '~' :: letter :: cs =>
    if letter.isAlpha then
      let body := (heredocWidth '"' cs).or ((heredocWidth '\'' cs).or (sigilBodyWidth cs))
      body.map fun width => width + runWidth Char.isAlpha (cs.drop width) + 2
    else none
  | _ => none

/-- A sigil. -/
def sigil : Terminal := fun _ cs => sigilWidth cs

/-! ### Atoms and keyword keys -/

/-- The operators that may be atoms, longer ones before their beginnings. -/
def atomSymbols : List String :=
  ["===", "==", "!==", "!=", "=~", "<>", "++", "--", "&&", "||", "|>", "<=", ">=", "..",
    "+", "-", "*", "/", "<", ">", "!", "=", "@", "&", "|", "^", "~"]

/-- An ASCII letter or an underscore. -/
def isNameStart (c : Char) : Bool := c.isAlpha || c == '_'

/-- An atom: a colon and a name, a quoted text or an operator. -/
def atom : Terminal := fun _ cs =>
  match cs with
  | ':' :: cs =>
    let body := (nameWidth isNameStart (fun c => isNameChar c || c == '@') cs).or
      ((quotedWidth cs).or (atomSymbols.findSome? fun symbol => textWidth symbol cs))
    body.map (· + 1)
  | _ => none

/-- A blank that may follow the colon of a keyword key. -/
def isKeyBlank (c : Char) : Bool := c == ' ' || c == '\t' || c == '\r' || c == '\n'

/-- A keyword key: a name or a quoted text, a colon, and a blank behind it. -/
def keywordKey : Terminal := fun _ cs =>
  match (nameWidth isNameStart isNameChar cs).or (quotedWidth cs) with
  | none => none
  | some width =>
    match cs.drop width with
    | ':' :: rest => if rest.head?.any isKeyBlank then some (width + 1) else none
    | _ => none

/-! ### Numbers and characters -/

/-- A digit or an underscore. -/
def isDigitOrBar (c : Char) : Bool := c.isDigit || c == '_'

/-- A digit of base sixteen or an underscore. -/
def isHexOrBar (c : Char) : Bool :=
  c.isDigit || ('a' ≤ c && c ≤ 'f') || ('A' ≤ c && c ≤ 'F') || c == '_'

/-- A digit of base eight or an underscore. -/
def isOctalOrBar (c : Char) : Bool := ('0' ≤ c && c ≤ '7') || c == '_'

/-- A digit of base two or an underscore. -/
def isBinaryOrBar (c : Char) : Bool := c == '0' || c == '1' || c == '_'

/-- The width of a numeral with a base mark. -/
def basedWidth (mark : Char) (digit : Char → Bool) : List Char → Option Nat
  | '0' :: m :: cs =>
    let width := runWidth digit cs
    if m = mark && width != 0 then some (width + 2) else none
  | _ => none

/-- The width of digits and underscores that start with a digit. -/
def decimalWidth : List Char → Option Nat
  | c :: cs => if c.isDigit then some (runWidth isDigitOrBar cs + 1) else none
  | [] => none

/-- A point and a digit. -/
def startsFraction : List Char → Bool
  | '.' :: d :: _ => d.isDigit
  | _ => false

/-- A decimal numeral that no fraction follows. -/
def wholeWidth (cs : List Char) : Option Nat :=
  match decimalWidth cs with
  | none => none
  | some width => if startsFraction (cs.drop width) then none else some width

/-- An integer in base sixteen, eight, two or ten. -/
def integer : Terminal := fun _ cs =>
  (basedWidth 'x' isHexOrBar cs).or ((basedWidth 'o' isOctalOrBar cs).or
    ((basedWidth 'b' isBinaryOrBar cs).or (wholeWidth cs)))

/-- The width of an exponent, zero if there is none. -/
def exponentWidth : List Char → Nat
  | [] => 0
  | e :: cs =>
    if e = 'e' ∨ e = 'E' then
      let sign := if cs.head?.any fun s => s == '+' || s == '-' then 1 else 0
      let digits := runWidth Char.isDigit (cs.drop sign)
      if digits = 0 then 0 else digits + sign + 1
    else 0

/-- A decimal number with a fraction. -/
def float : Terminal := fun _ cs =>
  match decimalWidth cs with
  | none => none
  | some whole =>
    let rest := cs.drop whole
    if startsFraction rest then
      let width := whole + runWidth isDigitOrBar (rest.drop 1) + 1
      some (width + exponentWidth (cs.drop width))
    else none

/-- A question mark and a character, which is not blank, or an escaped one. -/
def char : Terminal := fun _ cs =>
  match cs with
  | '?' :: '\\' :: _ :: _ => some 3
  | '?' :: c :: _ => if isSpace c || c == '\\' then none else some 2
  | _ => none

/-- An ampersand and the number of a placeholder. -/
def captureArg : Terminal := fun _ cs =>
  match cs with
  | '&' :: cs =>
    let width := runWidth Char.isDigit cs
    if width = 0 then none else some (width + 1)
  | _ => none

/-! ### Brackets and points -/

/-- A character after which a parenthesis opens the arguments of a call. -/
def takesArguments (c : Char) : Bool := isWord c || c == '?' || c == '!' || c == '.'

/-- A character after which a square bracket opens an access. -/
def takesAccess (c : Char) : Bool :=
  isWord c || c == '?' || c == '!' || c == ')' || c == ']' || c == '\x7d' || c == '"' || c == '\''

/-- The parenthesis of a call. -/
def callParen : Terminal := fun before cs =>
  if before.any takesArguments then textWidth "(" cs else none

/-- The parenthesis of a group. -/
def groupParen : Terminal := fun before cs =>
  if before.any takesArguments then none else textWidth "(" cs

/-- The bracket of an access. -/
def accessBracket : Terminal := fun before cs =>
  if before.any takesAccess then textWidth "[" cs else none

/-- The bracket of a list. -/
def listBracket : Terminal := fun before cs =>
  if before.any takesAccess then none else textWidth "[" cs

/-- A single point. -/
def dot : Terminal := fun _ cs => textNotBefore "." ['.'] cs

/-- The percent sign of a structure. -/
def percent : Terminal := fun _ cs => textNotBefore "%" ['\x7b'] cs

/-! ### Signs in front of an operand -/

/-- The sign of a capture. -/
def captureSign : Terminal := fun _ cs =>
  match cs with
  | '&' :: rest => if rest.head?.any (fun c => c == '&' || c.isDigit) then none else some 1
  | _ => none

/-- A sign in front of an operand. -/
def sign : Terminal := fun _ cs =>
  (textNotBefore "-" ['-', '+', '>'] cs).or ((textNotBefore "+" ['-', '+', '>'] cs).or
    ((textNotBefore "!" ['='] cs).or (textWidth "^" cs)))

/-! ### Line ends -/

/-- The width of line ends at the front of a text; blanks and a comment may follow each. -/
def lineEndsWidth : (inComment : Bool) → List Char → Nat
  | _, [] => 0
  | true, c :: cs => lineEndsWidth (c != '\n') cs + 1
  | false, c :: cs =>
    if c = '\n' ∨ c = ' ' ∨ c = '\t' then lineEndsWidth false cs + 1
    else if c = '\r' ∧ cs.head? = some '\n' then lineEndsWidth false cs + 1
    else if c = '#' then lineEndsWidth true cs + 1
    else 0

/-- One or more line ends with the blanks and comments behind them. -/
def lineEnds : Terminal := fun _ cs =>
  match cs with
  | '\n' :: _ => some (lineEndsWidth false cs)
  | '\r' :: '\n' :: _ => some (lineEndsWidth false cs)
  | _ => none

end LineScope.Grammar.Terminal
