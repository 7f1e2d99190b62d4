import LineScope.Grammar.Statement

/-!
# Expressions

Literals, names, collections and functions, the calls and accesses behind them, and the chains that
operators make of them.
-/

namespace LineScope.Grammar

open Rule

/-! ### Literals -/

/-- A term that cannot go on. -/
def closedTerm (node : Node) : Term := ⟨node, .closed⟩

/-- A literal whose token always has a value. -/
def literal (terminal : Terminal) (value : String → Literal) : Rule Node :=
  (fun found => .literal (value found.text)) <$> token terminal

/-- A token whose text may denote no value. -/
def decoded {α : Type} (terminal : Terminal) (kind : String)
    (decode : String → Except DecodeError α) (node : α → Nat → Node) : Rule Node := do
  let found ← token terminal
  match decode found.text with
  | .ok value => return node value found.line
  | .error error =>
    report ⟨kind, error, found.line⟩
    return .literal .nil

/-- A decoder of integers. -/
def decodeInteger (decode : String → Except Number.Fault Int) (text : String) :
    Except DecodeError Int :=
  (decode text).mapError .integer

/-- A placeholder of a captured function. -/
def placeholderNode (number : Int) (line : Nat) : Node :=
  .call "&" (some [.literal (.integer number)]) (some line)

/-- A sigil. -/
def sigilNode (sigil : Decode.Sigil) (line : Nat) : Node :=
  .call ("sigil_" ++ String.singleton sigil.letter)
    (some [.call "<<>>" (some [.literal (.string sigil.content)]) (some line),
      .literal (.charlist sigil.modifiers)]) (some line)

/-- The literals. -/
def literals : List (Rule Node) :=
  [decoded Terminal.integer "integer" (decodeInteger Decode.integer)
      (fun value _ => .literal (.integer value)),
    decoded Terminal.float "float_literal" Decode.float (fun value _ => .literal (.float value)),
    decoded Terminal.char "char" Decode.char (fun value _ => .literal (.integer value)),
    literal (Terminal.quotedText '"') (fun text => .string (Decode.quoted text)),
    literal (Terminal.heredoc '"') (fun text => .string (Decode.heredoc text)),
    literal (Terminal.quotedText '\'') (fun text => .charlist (Decode.quoted text)),
    literal (Terminal.heredoc '\'') (fun text => .charlist (Decode.heredoc text)),
    decoded Terminal.sigil "sigil" Decode.sigil sigilNode,
    literal Terminal.atom (fun text => .atom (Decode.atom text)),
    literal (Terminal.keyword "true") (fun _ => .boolean true),
    literal (Terminal.keyword "false") (fun _ => .boolean false),
    literal (Terminal.keyword "nil") (fun _ => .nil),
    decoded Terminal.captureArg "capture_arg" (decodeInteger Decode.captureArg) placeholderNode]

/-! ### Names -/

/-- A name that stands alone. -/
def identNode (name : Token) : Node := .ident name.text (some name.line) none

/-- The segments of a module name behind points. -/
def moreSegments (segments : List String) : Rule (List String) :=
  loop (fun segments => do
    let _ ← token Terminal.dot
    let segment ← token Terminal.aliasSegment
    return segments ++ [segment.text]) segments

/-- A module name that starts with a segment. -/
def plainModule : Rule Node := do
  let first ← token Terminal.aliasSegment
  let segments ← moreSegments [first.text]
  return .aliases segments

/-- A module name that starts with a variable. -/
def variableModule : Rule Node := do
  let name ← token Terminal.name
  let _ ← token Terminal.dot
  let first ← token Terminal.aliasSegment
  let segments ← moreSegments [first.text]
  return .call aliasesHead (some (identNode name :: segments.map .atom)) none

/-- A module name. -/
def moduleName : Rule Node := either plainModule variableModule

/-- A name, alone or with arguments in parentheses. -/
def nameTerm (inner : Nested) : Rule Term := do
  let name ← token Terminal.name
  let callee := Callee.plain name.text name.line
  either (pure ⟨identNode name, .callee callee⟩)
    ((fun args => ⟨callee.invoke args, .invoked callee args⟩) <$> callArguments inner)

/-- A module attribute. -/
def attributeTerm : Rule Term := do
  let sign ← token (Terminal.fixed "@")
  let name ← token Terminal.name
  return ⟨.call "@" (some [identNode name]) (some sign.line),
    .attribute name.text name.line sign.line⟩

/-! ### Collections -/

/-- Statements in parentheses. -/
def group (inner : Nested) : Rule Node := do
  let _ ← token Terminal.groupParen
  separator?
  let nodes ← statements inner
  separator?
  let _ ← token (Terminal.fixed ")")
  return .block nodes

/-- A list. -/
def listLiteral (inner : Nested) : Rule Node := do
  let _ ← token Terminal.listBracket
  let found ← bracketItems inner
  let _ ← token (Terminal.fixed "]")
  return .list found.spliced

/-- A tuple; two elements make a pair. -/
def tupleNode (line : Nat) : List Node → Node
  | [left, right] => .pair left right
  | nodes => .call "\x7b\x7d" (some nodes) (some line)

/-- A tuple. -/
def tupleLiteral (inner : Nested) : Rule Node := do
  let opening ← token (Terminal.fixed "\x7b")
  let found ← bracketItems inner
  let _ ← token (Terminal.fixed "\x7d")
  return tupleNode opening.line found.grouped

/-- A sequence of bits. -/
def bitsLiteral (inner : Nested) : Rule Node := do
  let opening ← token (Terminal.fixed "<<")
  let found ← bracketItems inner
  let _ ← token (Terminal.fixed ">>")
  return .call "<<>>" (some found.grouped) (some opening.line)

/-- The arrow of a map entry and the value behind it. -/
def entryValue (inner : Nested) (key : Node) : Rule Node := do
  lineEnd?
  let _ ← token (Terminal.fixed "=>")
  lineEnd?
  let value ← argument inner
  return .pair key value

/-- A map entry. -/
def mapEntry (inner : Nested) : Rule Node := argument inner >>= entryValue inner

/-- Map entries, of which the first is read by a rule of its own; a comma may follow the last. -/
def mapEntriesFrom (inner : Nested) (first : Rule Node) : Rule (List Node) := do
  let found ← itemsFrom inner first (mapEntry inner)
  skip comma
  return found.spliced

/-- Keyword entries of a map; a comma may follow the last. -/
def mapKeywords (inner : Nested) : Rule (List Node) := do
  let found ← keywordItems inner
  skip comma
  return found.spliced

/-- The entries of a map. -/
def mapEntries (inner : Nested) : Rule (List Node) :=
  either (mapEntriesFrom inner (mapEntry inner)) (mapKeywords inner)

/-- The update of a map: the map, a bar, what is read behind the bar, and the new entries. -/
def mapUpdateFrom (inner : Nested) (behindBar : Rule Unit) (base : Chain) : Rule (List Node) := do
  let bar ← token (Operator.symbol "|" .bar "|>").terminal
  behindBar
  let found ← mapEntries inner
  return [.call "|" (some [base.node, .list found]) (some bar.line)]

/-- The ways in which a chain becomes the body of a map: an update is preferred to entries, and of
the bars the one at the end of a line. -/
def mapWays (inner : Nested) : List (Chain → Rule (List Node)) :=
  [mapUpdateFrom inner lineEnd, mapUpdateFrom inner (pure ())] ++
    (argumentWays inner).map fun way chain => mapEntriesFrom inner (way chain >>= entryValue inner)

/-- The body of a map up to its closing brace. -/
def mapBody (inner : Nested) : Rule (List Node) := do
  lineEnd?
  let found ← optional (either (branch inner.chain (mapWays inner)) (mapKeywords inner))
  lineEnd?
  let _ ← token (Terminal.fixed "\x7d")
  return found.getD []

/-- The node of a map. -/
def mapNode (entries : List Node) (line : Nat) : Node := .call "%\x7b\x7d" (some entries) (some line)

/-- A map. -/
def mapLiteral (inner : Nested) : Rule Node := do
  let opening ← token (Terminal.fixed "%\x7b")
  let entries ← mapBody inner
  return mapNode entries opening.line

/-- The name of a structure. -/
def structName : Rule Node := either moduleName (identNode <$> token Terminal.name)

/-- A structure. -/
def structLiteral (inner : Nested) : Rule Node := do
  let sign ← token Terminal.percent
  let name ← structName
  let _ ← token (Terminal.fixed "\x7b")
  let entries ← mapBody inner
  return .call "%" (some [name, mapNode entries sign.line]) (some sign.line)

/-- A function with its clauses. -/
def functionLiteral (inner : Nested) : Rule Node := do
  let word ← token (Terminal.keyword "fn")
  separator?
  let found ← clauses inner
  separator?
  let _ ← token (Terminal.keyword "end")
  return .call "fn" (some found) (some word.line)

/-! ### Terms -/

/-- The terms that cannot go on by themselves. -/
def closedTerms (inner : Nested) : List (Rule Node) :=
  literals ++
    [moduleName, group inner, listLiteral inner, tupleLiteral inner, mapLiteral inner,
      structLiteral inner, bitsLiteral inner, functionLiteral inner]

/-- A term without calls and accesses behind it. -/
def primary (inner : Nested) : Rule Term :=
  preferred (choice
    ([nameTerm inner, attributeTerm] ++ (closedTerms inner).map (closedTerm <$> ·)))

/-- A name behind a point, alone or with arguments in parentheses. -/
def remoteTerm (inner : Nested) (target : Node) : Rule Term := do
  let name ← token Terminal.name
  let callee := Callee.remote target name.text name.line
  either (pure ⟨callee.invoke [], .callee callee⟩)
    ((fun args => ⟨callee.invoke args, .invoked callee args⟩) <$> callArguments inner)

/-- The call of a function value. -/
def anonymousCall (inner : Nested) (target : Node) (line : Nat) : Rule Term := do
  let args ← callArguments inner
  return closedTerm (.apply (.call "." (some [target]) (some line)) (some args) (some line))

/-- Several module names behind a common beginning. -/
def multiAlias (inner : Nested) (target : Node) (line : Nat) : Rule Term := do
  let _ ← token (Terminal.fixed "\x7b")
  lineEnd?
  let nodes ← optional (arguments inner)
  skip comma
  lineEnd?
  let _ ← token (Terminal.fixed "\x7d")
  return closedTerm (.apply (.call "." (some [target, .atom "\x7b\x7d"]) (some line))
    (some (nodes.getD [])) (some line))

/-- An access in square brackets. -/
def access (inner : Nested) (target : Node) (line : Nat) : Rule Term := do
  let _ ← token Terminal.accessBracket
  lineEnd?
  let key ← expression inner
  lineEnd?
  let _ ← token (Terminal.fixed "]")
  return closedTerm (.apply (.call "." (some [.aliases ["Access"], .atom "get"]) (some line))
    (some [target, key]) (some line))

/-- One call or access behind a term; `line` is the line on which the term starts. -/
def suffix (inner : Nested) (line : Nat) (term : Term) : Rule Term :=
  either
    (do
      let _ ← token Terminal.dot
      choice [remoteTerm inner term.node, anonymousCall inner term.node line,
        multiAlias inner term.node line])
    (access inner term.node line)

/-- A term with the calls and accesses behind it. -/
def postfixed (inner : Nested) : Rule Term := do
  let line ← Rule.line
  let term ← primary inner
  loop (fun term => preferred (suffix inner line term)) term

/-! ### Chains -/

/-- The signs in front of an operand. -/
def signs : Rule (List Token) :=
  loop (fun signs => do
    let sign ← either (token Terminal.sign) (token (Terminal.keyword "not"))
    return signs ++ [sign]) []

/-- A term behind signs, after which it cannot go on. -/
def signed (signs : List Token) (term : Term) : Term :=
  if signs.isEmpty then term
  else
    closedTerm (signs.foldr
      (fun sign node => .call sign.text (some [node]) (some sign.line)) term.node)

/-- The capture signs in front of an operand, if they may stand there. -/
def captureSigns (allowed : Bool) : Rule (List Nat) :=
  if allowed then
    loop (fun lines => do
      let sign ← token Terminal.captureSign
      return lines ++ [sign.line]) []
  else pure []

/-- An operand. -/
def operand (inner : Nested) (takesCapture : Bool) : Rule Operand := do
  let captures ← captureSigns takesCapture
  let found ← signs
  let term ← postfixed inner
  return ⟨captures, signed found term⟩

/-- One more operand behind a chain. -/
def chainStep (inner : Nested) (chain : Chain) : Rule Chain := do
  let joint ← joint
  let next ← operand inner joint.level.takesCapture
  return chain.snoc joint next

/-- A chain of operands. -/
def chainOf (inner : Nested) : Rule Chain := do
  let first ← operand inner true
  loop (chainStep inner) (.single first)

/-- The rules for code of a nesting depth. -/
def nested : Nat → Nested
  | 0 => ⟨fail, fail⟩
  | depth + 1 => ⟨chainOf (nested depth), blockOf (nested depth)⟩

/-! ### Programs -/

/-- The statements of a program. -/
def program (inner : Nested) : Rule (List Node) := do
  separator?
  let nodes ← optional do
    let nodes ← statements inner
    separator?
    return nodes
  return nodes.getD []

/-- The ways to read a source and the farthest position that was reached.  A nesting takes at least
one character, so no code is nested deeper than the source is long. -/
def readProgram (source : List Char) : Outcome (List Node) :=
  let c := (Cursor.start source).skipIgnored
  let found := program (nested (source.length + 1)) c
  ⟨max c.offset found.reach, found.found⟩

end LineScope.Grammar
