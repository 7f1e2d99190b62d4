import LineScope.Node.Basic
import LineScope.Number.Decimal

/-!
# Text of quoted code

Two texts of a node: the short one, which reads like code and is used in messages, and the quoted
one, which shows every head, line and argument list and is the form that tools exchange.
-/

namespace LineScope

open LineScope.Number

/-! ### Literals -/

/-- The short text of a literal. -/
def Literal.text : Literal → String
  | .atom name => ":" ++ name
  | .string value => "\"" ++ value ++ "\""
  | .charlist value => value
  | .integer value => toString value
  | .float value => value.text
  | .boolean true => "true"
  | .boolean false => "false"
  | .nil => "nil"

/-- A character inside a quoted string: a backslash and a double quote get a backslash. -/
def escapeQuoted (c : Char) : List Char :=
  if c = '\\' ∨ c = '"' then ['\\', c] else [c]

/-- The quoted text of a literal. -/
def Literal.quoted : Literal → String
  | .string value => String.ofList ('"' :: value.toList.flatMap escapeQuoted ++ ['"'])
  | .charlist value => "'" ++ value ++ "'"
  | value => value.text

/-- Whether a literal can be written: only integers beyond the digit limit cannot. -/
def Literal.isWritable : Literal → Bool
  | .integer value => Number.isWritable value
  | _ => true

namespace Node

/-! ### Short text -/

mutual

/-- The short text of a node. -/
def text : Node → String
  | .call name args _ => name ++ argumentText args
  | .apply head args _ => head.text ++ argumentText args
  | .pair left right => "\x7b" ++ left.text ++ ", " ++ right.text ++ "\x7d"
  | .list items => "[" ++ String.intercalate ", " (texts items) ++ "]"
  | .literal value => value.text
  | .ident name _ _ => name

/-- The short text of an argument list; a bare reference has none. -/
def argumentText : Option (List Node) → String
  | none => ""
  | some args => "(" ++ String.intercalate ", " (texts args) ++ ")"

/-- The short texts of several nodes. -/
def texts : List Node → List String
  | [] => []
  | node :: nodes => node.text :: texts nodes

end

/-! ### Quoted text -/

/-- The metadata of a call or an identifier: its line, if it has one. -/
def lineText : Option Int → String
  | none => "[]"
  | some line => "[line: " ++ toString line ++ "]"

mutual

/-- The quoted text of a node. -/
def quoted : Node → String
  | .call name args line =>
    "\x7b:" ++ name ++ ", " ++ lineText line ++ ", " ++ argumentQuoted args ++ "\x7d"
  | .apply head args line =>
    "\x7b" ++ head.quoted ++ ", " ++ lineText line ++ ", " ++ argumentQuoted args ++ "\x7d"
  | .pair left right => "\x7b" ++ left.quoted ++ ", " ++ right.quoted ++ "\x7d"
  | .list items => "[" ++ String.intercalate ", " (quotedAll items) ++ "]"
  | .literal value => value.quoted
  | .ident name line context =>
    "\x7b:" ++ name ++ ", " ++ lineText line ++ ", " ++ context.getD "nil" ++ "\x7d"

/-- The quoted text of an argument list; a bare reference has `nil` in its place. -/
def argumentQuoted : Option (List Node) → String
  | none => "nil"
  | some args => "[" ++ String.intercalate ", " (quotedAll args) ++ "]"

/-- The quoted texts of several nodes. -/
def quotedAll : List Node → List String
  | [] => []
  | node :: nodes => node.quoted :: quotedAll nodes

end

/-! ### Writable nodes -/

mutual

/-- Whether every literal of a node can be written. -/
def isWritable : Node → Bool
  | .call _ args _ => argumentsWritable args
  | .apply head args _ => head.isWritable && argumentsWritable args
  | .pair left right => left.isWritable && right.isWritable
  | .list items => allWritable items
  | .literal value => value.isWritable
  | .ident _ _ _ => true

/-- Whether every literal of an argument list can be written. -/
def argumentsWritable : Option (List Node) → Bool
  | none => true
  | some args => allWritable args

/-- Whether every literal of several nodes can be written. -/
def allWritable : List Node → Bool
  | [] => true
  | node :: nodes => node.isWritable && allWritable nodes

end

end Node

end LineScope
