import LineScope.Grammar.Chain
import LineScope.Grammar.Decode

/-!
# Lists of expressions

The parts that calls, collections and blocks share: separators, expressions with commas between
them, and keyword entries.  Every rule that reads nested code takes the rules for the code inside
as an argument, so no rule refers to itself.
-/

namespace LineScope.Grammar

open Rule

/-- The rules for nested code: chains of operands, and blocks. -/
structure Nested where
  chain : Rule Chain
  block : Rule Node

/-! ### Separators -/

/-- A comma. -/
def comma : Rule Token := token (Terminal.fixed ",")

/-- A line end or a semicolon. -/
def separatorToken : Rule Token := either (token Terminal.lineEnds) (token (Terminal.fixed ";"))

/-- Line ends and semicolons between statements. -/
def separator : Rule Unit := do
  let _ ← separatorToken
  loop (fun _ => (fun _ => ()) <$> separatorToken) ()

/-- A separator or nothing. -/
def separator? : Rule Unit := skip separator

/-! ### Expressions and lists of them -/

/-- An expression: the tree of a chain. -/
def expression (inner : Nested) : Rule Node := Chain.node <$> inner.chain

/-- Values with commas between them, and for each behind the first, the last one in front, whether it
stands behind a line end. -/
structure Row where
  nodes : List Node
  breaks : List Bool

namespace Row

/-- Whether a row with the first breaks is preferred to one with the second, where both end at one
position.  A single value behind the first is preferred to several.  Of several the last one decides:
it is rather behind a line end than not. -/
def comesBefore : List Bool → List Bool → Bool
  | [], _ => true
  | _, [] => false
  | [_], _ => true
  | _, [_] => false
  | a :: as, b :: bs => if a == b then comesBefore as bs else a

/-- Whether a row is preferred to another. -/
def precedes (a b : Row) : Bool := comesBefore a.breaks b.breaks

end Row

/-- One more value of a row. -/
def rowStep (more : Rule Node) (row : Row) : Rule Row := do
  let _ ← comma
  let broken ← optional lineEnd
  let node ← more
  return ⟨row.nodes ++ [node], broken.isSome :: row.breaks⟩

/-- One or more values with commas between them; a line may end behind a comma. -/
def commaList (first more : Rule Node) : Rule (List Node) := do
  let node ← first
  Row.nodes <$> ordered Row.precedes (loop (rowStep more) ⟨[node], []⟩)

/-- A keyword entry. -/
def keywordEntry (inner : Nested) : Rule Node := do
  let key ← token Terminal.keywordKey
  lineEnd?
  let value ← expression inner
  return .pair (.atom (Decode.keywordKey key.text)) value

/-- One or more keyword entries. -/
def keywordList (inner : Nested) : Rule (List Node) :=
  commaList (keywordEntry inner) (keywordEntry inner)

/-! ### Items -/

/-- Values and the keyword entries behind them. -/
structure Items where
  nodes : List Node
  keywords : List Node

namespace Items

/-- The items with the keyword entries as one list behind the others. -/
def grouped (items : Items) : List Node :=
  if items.keywords.isEmpty then items.nodes else items.nodes ++ [.list items.keywords]

/-- The items with the keyword entries among the others. -/
def spliced (items : Items) : List Node := items.nodes ++ items.keywords

end Items

/-- Values, of which the first is read by a rule of its own, and keyword entries behind them. -/
def itemsFrom (inner : Nested) (first more : Rule Node) : Rule Items := do
  let nodes ← commaList first more
  let keywords ← optional do
    let _ ← comma
    lineEnd?
    keywordList inner
  return ⟨nodes, keywords.getD []⟩

/-- Keyword entries alone. -/
def keywordItems (inner : Nested) : Rule Items :=
  (fun keywords => ⟨[], keywords⟩) <$> keywordList inner

/-- Values, of which the first is read by a rule of its own, keyword entries or both. -/
def items (inner : Nested) (first more : Rule Node) : Rule Items :=
  either (itemsFrom inner first more) (keywordItems inner)

/-- Arguments without parentheses. -/
def bareArguments (inner : Nested) : Rule (List Node) :=
  Items.grouped <$> items inner (expression inner) (expression inner)

/-! ### Calls that go on behind a callee -/

/-- The calls of a callee: with arguments without parentheses, a block or both; `needsBlock` leaves
out the calls without a block. -/
def callFrom (inner : Nested) (needsBlock : Bool) : Form → Rule Node
  | .callee callee =>
    either
      (do
        let args ← bareArguments inner
        either (if needsBlock then fail else pure (callee.invoke args))
          ((fun block => callee.invoke (args ++ [block])) <$> inner.block))
      ((fun block => callee.invoke [block]) <$> inner.block)
  | .invoked callee args => (fun block => callee.invoke (args ++ [block])) <$> inner.block
  | _ => fail

/-- An argument from a chain: its expression, or a call with a block. -/
def argumentWays (inner : Nested) : List (Chain → Rule Node) :=
  [fun chain => pure chain.node, fun chain => callFrom inner true chain.form]

/-- An argument, where an expression is preferred to a call with a block. -/
def argument (inner : Nested) : Rule Node := branch inner.chain (argumentWays inner)

/-- An argument behind others, where a call with a block is preferred to an expression, so that the
call takes the values in front of its block for its own arguments. -/
def laterArgument (inner : Nested) : Rule Node := branch inner.chain (argumentWays inner).reverse

/-- One or more arguments. -/
def arguments (inner : Nested) : Rule (List Node) := commaList (argument inner) (laterArgument inner)

/-- Arguments, keyword entries or both. -/
def argumentItems (inner : Nested) : Rule Items := items inner (argument inner) (laterArgument inner)

/-- Arguments in parentheses. -/
def callArguments (inner : Nested) : Rule (List Node) := do
  let _ ← token Terminal.callParen
  let args ← optional do
    lineEnd?
    let args ← argumentItems inner
    skip comma
    lineEnd?
    return args.grouped
  let _ ← token (Terminal.fixed ")")
  return args.getD []

/-- The items between two brackets; a comma may follow the last. -/
def bracketItems (inner : Nested) : Rule Items := do
  lineEnd?
  let found ← optional do
    let found ← argumentItems inner
    skip comma
    return found
  lineEnd?
  return found.getD ⟨[], []⟩

end LineScope.Grammar
