import LineScope.Diagnostic.Failure
import LineScope.Grammar.Expression
import LineScope.Grammar.Opener
import LineScope.Log

/-!
# Parsing a source

A source that the grammar derives becomes quoted code.  Any other source fails at the farthest
position that an attempt has come to, or at its end.
-/

namespace LineScope.Grammar

open LineScope.Text

/-- The name of a source that has no file. -/
def defaultFile : String := "nofile"

/-- The component that notes failed parses. -/
def component : String := "exscope.frontend.parser"

/-! ### Faults of a source -/

/-- The line and the column of a position. -/
def lineAndColumn (source : List Char) (position : Nat) : Nat × Nat :=
  let before := source.take position
  (before.count '\n' + 1, (before.reverse.takeWhile (· != '\n')).length + 1)

/-- The width of one run of blanks, or of one comment, at the front of a text. -/
def ignorableWidth : List Char → Nat
  | [] => 0
  | c :: cs =>
    if c = '#' then Terminal.runWidth Terminal.inLine cs + 1
    else Terminal.runWidth (fun c => c == ' ' || c == '\t' || c == '\x0c') (c :: cs)

/-- The position at which a reader that can go no further than `reach` gives up.  At every position,
also inside a token, it sets out to skip what looks like blanks or a comment, and it does not give
up before all such attempts have ended; `pending` is the end of the farthest one. -/
def giveUpFrom (reach pending position : Nat) : List Char → Nat
  | [] => position
  | c :: cs =>
    let pending := max pending (position + ignorableWidth (c :: cs))
    if reach ≤ position && pending ≤ position + 1 then position
    else giveUpFrom reach pending (position + 1) cs

/-- The position at which a source that cannot be read beyond `reach` is wrong. -/
def errorPosition (source : List Char) (reach : Nat) : Nat := giveUpFrom reach 0 0 source

/-- The token at which a source is wrong: a word, which may end in a question or exclamation mark,
or one character. -/
def offendingToken (source : List Char) (position : Nat) : String :=
  match (source.drop position).dropWhile isSpace with
  | [] => "end of input"
  | c :: cs =>
    if isWord c then
      let word := (c :: cs).takeWhile isWord
      let mark := ((c :: cs).drop word.length).take 1
      String.ofList (word ++ mark.filter fun m => m == '?' || m == '!')
    else String.singleton c

/-- The failure at a position in a source. -/
def unexpectedToken (source : String) (file : String) (position : Nat) : Logged Failure :=
  let (line, column) := lineAndColumn source.toList position
  let token := offendingToken source.toList position
  let place := file ++ ":" ++ toString line ++ ":" ++ toString column
  .note ⟨.debug, component, place ++ ": no parse at " ++ quote token⟩
    (.quiet ⟨.parse (some (.number line)) file, "syntax error before: " ++ token,
      some (.point file line column), some syntaxErrorCode, some source, none, none,
      some "unexpected token"⟩)

/-- The failure at the end of a source: a block that is not closed, if there is one. -/
def unexpectedEnd (source : String) (file : String) : Failure :=
  match unclosedOpener source.toList with
  | none =>
    ⟨.parse none file, "unexpected end of input", none, some syntaxErrorCode, some source, none,
      none, none⟩
  | some (word, line) =>
    ⟨.parse none file,
      "missing terminator: end (for \"" ++ word ++ "\" starting at line " ++ toString line ++ ")",
      some (.point file line 1), some missingTerminatorCode, some source, none,
      some "every \"do\" and \"fn\" block is closed by a matching \"end\"",
      some ("\"" ++ word ++ "\" block opened on this line")⟩

/-- The failure of a token that denotes no value. -/
def invalidToken (source : String) (file : String) (fault : Fault) : Failure :=
  ⟨.parse (some (.number fault.line)) file, fault.message, some (.point file fault.line 1),
    some syntaxErrorCode, some source, none, none, none⟩

/-! ### Parsing -/

/-- The preferred way that reads a source to its end. -/
def complete? (found : List (List Node × Cursor)) : Option (List Node × Cursor) :=
  found.find? fun way => way.2.rest.isEmpty

/-- The quoted code of a source, or why there is none. -/
def parse (source : String) (file : String) : Logged (Except Failure Node) :=
  let outcome := readProgram source.toList
  match complete? outcome.found with
  | some (nodes, c) =>
    match c.fault with
    | none => .quiet (.ok (.block nodes))
    | some fault => .quiet (.error (invalidToken source file fault))
  | none =>
    if outcome.reach < source.length then
      (unexpectedToken source file (errorPosition source.toList outcome.reach)).map .error
    else .quiet (.error (unexpectedEnd source file))

end LineScope.Grammar
