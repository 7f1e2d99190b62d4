import LineScope.Grammar.Operator

/-!
# Operand chains

An expression is read as a chain: operands with joints between them.  The tower of levels then
turns a chain into a tree: it is cut at the joints of the lowest level, each piece is resolved by
the levels above, and the pieces are joined from the side on which the level groups.
-/

namespace LineScope.Grammar

/-! ### Callees -/

/-- What is called: a name, or a name behind a point. -/
inductive Callee where
  | plain (name : String) (line : Nat)
  | remote (target : Node) (name : String) (line : Nat)

/-- A name behind a point. -/
def dotted (target : Node) (name : String) (line : Nat) : Node :=
  .call "." (some [target, .atom name]) (some line)

/-- The call of a callee. -/
def Callee.invoke (callee : Callee) (args : List Node) : Node :=
  match callee with
  | .plain name line => .call name (some args) (some line)
  | .remote target name line => .apply (dotted target name line) (some args) (some line)

/-- How an operand can go on when it stands alone. -/
inductive Form where
  /-- It cannot go on. -/
  | closed
  /-- Arguments without parentheses or a block may follow. -/
  | callee (callee : Callee)
  /-- A block may follow the arguments in parentheses. -/
  | invoked (callee : Callee) (args : List Node)
  /-- A value may follow the name of a module attribute. -/
  | attribute (name : String) (nameLine signLine : Nat)

/-- An operand and the ways in which it can go on. -/
structure Term where
  node : Node
  form : Form

/-! ### Chains -/

/-- A term with the lines of the capture signs in front of it. -/
structure Operand where
  captures : List Nat
  term : Term

/-- Operands with joints between them. -/
structure Chain where
  first : Operand
  rest : List (Joint × Operand)

namespace Chain

/-- A chain of one operand. -/
def single (operand : Operand) : Chain := ⟨operand, []⟩

/-- A chain with one more operand. -/
def snoc (chain : Chain) (joint : Joint) (operand : Operand) : Chain :=
  ⟨chain.first, chain.rest ++ [(joint, operand)]⟩

/-- Cuts operands at the joints that a test picks. -/
def cut (p : Joint → Bool) : Operand → List (Joint × Operand) → Chain × List (Joint × Chain)
  | operand, [] => (single operand, [])
  | operand, (joint, next) :: rest =>
    let (piece, pieces) := cut p next rest
    if p joint then (single operand, (joint, piece) :: pieces)
    else (⟨operand, (joint, piece.first) :: piece.rest⟩, pieces)

/-- Joins nodes from the left. -/
def joinLeft (first : Node) (rest : List (Joint × Node)) : Node :=
  rest.foldl (fun left step => step.1.join left step.2) first

/-- Joins nodes from the right. -/
def joinRight : Node → List (Joint × Node) → Node
  | first, [] => first
  | first, (joint, next) :: rest => joint.join first (joinRight next rest)

/-- Joins nodes from a side. -/
def joinFrom : Side → Node → List (Joint × Node) → Node
  | .left, first, rest => joinLeft first rest
  | .right, first, rest => joinRight first rest

/-- A node behind capture signs. -/
def captured (lines : List Nat) (node : Node) : Node :=
  lines.foldr (fun (line : Nat) node => .call "&" (some [node]) (some line)) node

/-- A floor of the tower: the joints of a level, or the capture signs. -/
inductive Floor where
  | joints (level : Level)
  | captures
deriving DecidableEq

/-- The tower, from the floor that binds least. -/
def tower : List Floor :=
  [.joints .arrow, .joints .guard, .joints .typing, .joints .bar, .captures, .joints .matching,
    .joints .disjunction, .joints .conjunction, .joints .equality, .joints .relation,
    .joints .pipe, .joints .membership, .joints .concatenation, .joints .addition,
    .joints .multiplication]

/-- The tree of a chain by the floors of a tower. -/
def resolve : List Floor → Chain → Node
  | [], chain => chain.first.term.node
  | .captures :: floors, chain => captured chain.first.captures (resolve floors chain)
  | .joints level :: floors, chain =>
    let (piece, pieces) := cut (fun joint => joint.level == level) chain.first chain.rest
    joinFrom level.side (resolve floors piece)
      (pieces.map fun step => (step.1, resolve floors step.2))

/-- The tree of a chain.  A chain of one operand needs no tower. -/
def node (chain : Chain) : Node :=
  match chain.rest with
  | [] => captured chain.first.captures chain.first.term.node
  | _ :: _ => resolve tower chain

/-- The form of a chain that is one operand without signs in front of it. -/
def form (chain : Chain) : Form :=
  match chain.rest with
  | [] => if chain.first.captures.isEmpty then chain.first.term.form else .closed
  | _ :: _ => .closed

/-- Splits `pattern = operand`, where the pattern has neither captures nor operators that bind as
little as matching: the pattern, the joint and the form of the operand. -/
def matching? (chain : Chain) : Option (Node × Joint × Form) :=
  match chain.rest.getLast? with
  | none => none
  | some (joint, operand) =>
    let init := chain.rest.dropLast
    if joint.level == .matching && chain.first.captures.isEmpty &&
        init.all (fun step => step.1.level.isAboveMatching) then
      some (node ⟨chain.first, init⟩, joint, operand.term.form)
    else none

end Chain

end LineScope.Grammar
