import LineScope.Grammar.Terminal
import LineScope.Node.Shape

/-!
# Binary operators

The binary operators with their levels, from the one that binds least to the one that binds most.
-/

namespace LineScope.Grammar

/-- The levels of binary operators. -/
inductive Level where
  | arrow | guard | typing | bar | matching | disjunction | conjunction | equality | relation
  | pipe | membership | concatenation | addition | multiplication
deriving DecidableEq, Repr

/-- The side on which operators of one level group. -/
inductive Side where
  | left | right
deriving DecidableEq, Repr

/-- The side on which a level groups. -/
def Level.side : Level → Side
  | .arrow | .guard | .typing | .bar | .matching | .concatenation => .right
  | _ => .left

/-- Whether a capture may stand behind an operator of the level. -/
def Level.takesCapture : Level → Bool
  | .arrow | .guard | .typing | .bar => true
  | _ => false

/-- Whether a level binds more than the matching operator. -/
def Level.isAboveMatching : Level → Bool
  | .arrow | .guard | .typing | .bar | .matching => false
  | _ => true

/-- A binary operator: its text, its level, and what may not follow the text.  A word ends where a
name could not go on; a symbol must not be the beginning of a longer one. -/
structure Operator where
  text : String
  level : Level
  isWord : Bool
  stops : List Char
deriving DecidableEq, Repr

namespace Operator

/-- An operator that is a word. -/
def word (text : String) (level : Level) : Operator := ⟨text, level, true, []⟩

/-- An operator that is a symbol. -/
def symbol (text : String) (level : Level) (stops : String) : Operator :=
  ⟨text, level, false, stops.toList⟩

/-- All binary operators that are one token.  At most one of them stands at a position. -/
def all : List Operator :=
  [symbol "<-" .arrow "", symbol "\\\\" .arrow "",
    word "when" .guard,
    symbol "::" .typing "",
    symbol "|" .bar "|>",
    symbol "=" .matching "=~>",
    symbol "||" .disjunction "", word "or" .disjunction,
    symbol "&&" .conjunction "", word "and" .conjunction,
    symbol "===" .equality "", symbol "==" .equality "=", symbol "!==" .equality "",
    symbol "!=" .equality "=", symbol "=~" .equality "",
    symbol "<=" .relation "", symbol ">=" .relation "", symbol "<" .relation "<>=-|~",
    symbol ">" .relation ">=",
    symbol "|>" .pipe "",
    word "in" .membership,
    symbol "++" .concatenation "", symbol "--" .concatenation "", symbol "<>" .concatenation "",
    symbol ".." .concatenation ".", symbol "//" .concatenation "",
    symbol "+" .addition "+", symbol "-" .addition "->",
    symbol "**" .multiplication "", symbol "*" .multiplication "*",
    symbol "/" .multiplication "/"]

/-- The width of an operator at the front of a text. -/
def width (op : Operator) (cs : List Char) : Option Nat :=
  if op.isWord then Terminal.keywordWidth op.text cs
  else Terminal.textNotBefore op.text op.stops cs

/-- The terminal of an operator. -/
def terminal (op : Operator) : Terminal := fun _ cs => op.width cs

/-- The operator at the front of a text. -/
def at? (cs : List Char) : Option Operator := all.find? fun op => (op.width cs).isSome

end Operator

/-- What joins two operands: an operator, or the two words of a negated membership. -/
inductive Joint where
  | operator (op : Operator) (line : Nat)
  | notIn (notLine inLine : Nat)

namespace Joint

/-- The level of a joint. -/
def level : Joint → Level
  | .operator op _ => op.level
  | .notIn _ _ => .membership

/-- The node of two joined operands. -/
def join (joint : Joint) (left right : Node) : Node :=
  match joint with
  | .operator op line => .call op.text (some [left, right]) (some line)
  | .notIn notLine inLine =>
    .call "not" (some [.call "in" (some [left, right]) (some inLine)]) (some notLine)

end Joint

/-- A line end. -/
def lineEnd : Rule Unit := (fun _ => ()) <$> Rule.token Terminal.lineEnds

/-- A line end between an operator and its right operand. -/
def lineEnd? : Rule Unit := Rule.skip (Rule.token Terminal.lineEnds)

/-- Reads the operator at the position. -/
def readOperator : Rule Joint := fun c =>
  match Operator.at? c.rest with
  | none => Outcome.none
  | some op => ((fun token => Joint.operator op token.line) <$> Rule.token op.terminal : Rule Joint) c

/-- Reads the two words of a negated membership. -/
def readNotIn : Rule Joint := do
  let negation ← Rule.token (Terminal.keyword "not")
  let membership ← Rule.token (Terminal.keyword "in")
  return .notIn negation.line membership.line

/-- The pipe, which may stand on the next line. -/
def pipe : Operator := Operator.symbol "|>" .pipe ""

/-- Reads a pipe that stands at the beginning of the next line. -/
def readPipeBelow : Rule Joint := do
  let _ ← Rule.token Terminal.lineEnds
  let token ← Rule.token pipe.terminal
  return .operator pipe token.line

/-- Reads what joins two operands, and a line end behind it. -/
def joint : Rule Joint := do
  let joint ← Rule.choice [readOperator, readNotIn, readPipeBelow]
  lineEnd?
  return joint

end LineScope.Grammar
