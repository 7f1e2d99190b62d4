import LineScope.Grammar.Items

/-!
# Statements and blocks

A statement is an expression, a call without parentheses or with a block, the setting of a module
attribute, or a match with such a call on its right.  An expression is preferred to the others
where both can be read.
-/

namespace LineScope.Grammar

open Rule

/-! ### Statements -/

/-- The setting of a module attribute. -/
def attributeFrom (inner : Nested) : Form → Rule Node
  | .attribute name nameLine signLine => do
    let value ← expression inner
    return .call "@" (some [.call name (some [value]) (some nameLine)]) (some signLine)
  | _ => fail

/-- A match whose right side is a call without parentheses or with a block. -/
def matchFrom (inner : Nested) (chain : Chain) : Rule Node :=
  match chain.matching? with
  | none => fail
  | some (pattern, joint, form) => joint.join pattern <$> callFrom inner false form

/-- The ways in which a chain becomes a statement, preferred ones first. -/
def statementWays (inner : Nested) : List (Chain → Rule Node) :=
  [fun chain => pure chain.node,
    fun chain => callFrom inner false chain.form,
    fun chain => attributeFrom inner chain.form,
    matchFrom inner]

/-- A statement. -/
def statement (inner : Nested) : Rule Node := preferred (branch inner.chain (statementWays inner))

/-- More statements behind a first one. -/
def statementsFrom (inner : Nested) (first : Node) : Rule (List Node) :=
  loop (fun nodes => do
    separator
    let node ← statement inner
    return nodes ++ [node]) [first]

/-- One or more statements. -/
def statements (inner : Nested) : Rule (List Node) := statement inner >>= statementsFrom inner

/-! ### Clauses -/

/-- The head of a clause: its patterns and the line of the arrow. -/
structure ClauseHead where
  patterns : List Node
  line : Nat

/-- The arrow of a clause and a separator behind it. -/
def clauseArrow (patterns : List Node) : Rule ClauseHead := do
  let arrow ← token (Terminal.fixed "->")
  separator?
  return ⟨patterns, arrow.line⟩

/-- The head of a clause whose first pattern has been read. -/
def clauseHeadFrom (inner : Nested) (first : Chain) : Rule ClauseHead := do
  let patterns ← commaList (pure first.node) (expression inner)
  clauseArrow patterns

/-- The head of a clause, which may have no patterns. -/
def clauseHead (inner : Nested) : Rule ClauseHead :=
  either (clauseArrow []) (inner.chain >>= clauseHeadFrom inner)

/-- A clause. -/
def clauseNode (head : ClauseHead) (body : List Node) : Node :=
  .call "->" (some [.list head.patterns, .block body]) (some head.line)

/-- Clauses while they are read: the finished ones and the parts of the last one. -/
structure Clauses where
  done : List Node
  head : ClauseHead
  body : List Node

/-- The nodes of all clauses. -/
def Clauses.nodes (clauses : Clauses) : List Node :=
  clauses.done ++ [clauseNode clauses.head clauses.body]

/-- What stands in a body of clauses: a statement or the head of the next clause. -/
inductive Entry where
  | statement (node : Node)
  | head (head : ClauseHead)

/-- A statement or the head of a clause. -/
def entry (inner : Nested) : Rule Entry :=
  either
    (preferred (branch inner.chain
      ((statementWays inner).map (fun way chain => Entry.statement <$> way chain) ++
        [fun chain => Entry.head <$> clauseHeadFrom inner chain])))
    (Entry.head <$> clauseArrow [])

/-- Reads an entry behind a clause: a statement of it, or the next clause with its first
statement. -/
def clauseStep (inner : Nested) (clauses : Clauses) : Rule Clauses := do
  separator
  match ← entry inner with
  | .statement node => return { clauses with body := clauses.body ++ [node] }
  | .head head =>
    let first ← statement inner
    return ⟨clauses.nodes, head, [first]⟩

/-- The clauses that start with a head. -/
def clausesFrom (inner : Nested) (head : ClauseHead) : Rule (List Node) := do
  let first ← statement inner
  let clauses ← loop (clauseStep inner) ⟨[], head, [first]⟩
  return clauses.nodes

/-- One or more clauses. -/
def clauses (inner : Nested) : Rule (List Node) := clauseHead inner >>= clausesFrom inner

/-! ### Blocks -/

/-- The body of a section behind its first entry: statements, or clauses. -/
def sectionFrom (inner : Nested) : Entry → Rule Node
  | .statement node => .block <$> statementsFrom inner node
  | .head head => .list <$> clausesFrom inner head

/-- The body of a section, which may be empty. -/
def sectionBody (inner : Nested) : Rule Node := do
  separator?
  let body ← optional do
    let body ← entry inner >>= sectionFrom inner
    separator?
    return body
  return body.getD (.block [])

/-- A block as a keyword list: each label with its section. -/
def blockNode (sections : List (String × Node)) : Node :=
  .list (sections.map fun entry => .pair (.atom entry.1) entry.2)

/-- A block with its sections. -/
def blockOf (inner : Nested) : Rule Node := do
  let _ ← token (Terminal.keyword "do")
  let body ← sectionBody inner
  let sections ← loop (fun sections => do
    let label ← token Terminal.blockLabel
    let body ← sectionBody inner
    return sections ++ [(label.text, body)]) [("do", body)]
  let _ ← token (Terminal.keyword "end")
  return blockNode sections

end LineScope.Grammar
