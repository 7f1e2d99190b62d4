import LineScope.Table

/-!
# Definitions

The table of definitions: the lines on which modules and functions are defined.
-/

namespace LineScope

/-- The key of a definition.  Without a function it is a module; without an arity it is the first
definition of a function of any arity. -/
structure DefinitionKey where
  module : String
  function : Option String
  arity : Option Int
deriving DecidableEq, Repr

namespace DefinitionKey

/-- The key of a module. -/
def ofModule (module : String) : DefinitionKey := ⟨module, none, none⟩

/-- The key of a function of any arity. -/
def ofFunction (module function : String) : DefinitionKey := ⟨module, some function, none⟩

/-- The key of a function with an arity. -/
def ofArity (module function : String) (arity : Int) : DefinitionKey :=
  ⟨module, some function, some arity⟩

/-- The text of a key. -/
def text (key : DefinitionKey) : String :=
  match key.function, key.arity with
  | none, _ => key.module
  | some function, none => key.module ++ "." ++ function
  | some function, some arity => key.module ++ "." ++ function ++ "/" ++ toString arity

end DefinitionKey

/-- The lines of definitions. -/
abbrev Definitions := Table DefinitionKey Int

end LineScope
