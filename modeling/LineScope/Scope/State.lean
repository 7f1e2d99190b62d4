import LineScope.Scope.Context

/-!
# Scope state

The scopes that are open at a point of a walk.  A scope of a module enters several names and
segments at once but one frame per stack, so scopes are closed by the numbers they were opened
with.
-/

namespace LineScope

open LineScope.Text

/-- The open scopes: the segments of the module path from the outside in, the names of the scopes
from the inside out, and the frames of imports, aliases and variables. -/
structure Scope where
  modulePath : List String
  names : List String
  imports : FrameStack String
  aliases : FrameStack (String × String)
  vars : FrameStack String
deriving DecidableEq, Repr

/-- Why a scope cannot be changed, or a walk cannot go on. -/
inductive ScopeError where
  /-- A module name without segments has no last segment. -/
  | noSegment
  /-- There is no open scope. -/
  | noScope
  /-- There is no frame. -/
  | noFrame
  /-- There are fewer scopes than are to be closed. -/
  | cannotClose (depth : Int) (names : List String)
  /-- Scopes are left open, or too many were closed. -/
  | unbalanced (scope : Scope)
  /-- The walk went deeper than its limit. -/
  | tooDeep
deriving DecidableEq, Repr

namespace Scope

/-- The state in front of a file. -/
def start : Scope := ⟨[], [rootModule], .root, .root, .root⟩

/-- The name of the module. -/
def currentModule (scope : Scope) : String := modulePathName scope.modulePath

/-- The imports in effect. -/
def effectiveImports (scope : Scope) : List String := scope.imports.flatten id

/-- The aliases in effect. -/
def effectiveAliases (scope : Scope) : List (String × String) := scope.aliases.flatten (·.1)

/-- The variables of the innermost scope. -/
def currentVars (scope : Scope) : List String := scope.vars.innermost

/-- The context at this point, with the variables or without. -/
def snapshot (scope : Scope) (withVars : Bool) : Context :=
  ⟨some scope.currentModule, scope.effectiveImports, scope.effectiveAliases,
    if withVars then scope.currentVars else []⟩

/-- Whether every scope that was opened has been closed. -/
def isBalanced (scope : Scope) : Bool :=
  scope.modulePath == [] && scope.names == [rootModule] && scope.imports.length == 1 &&
    scope.aliases.length == 1 && scope.vars.length == 1

/-- Opens a scope with names and with segments of the module path. -/
def enter (scope : Scope) (names segments : List String) : Scope :=
  ⟨scope.modulePath ++ segments, names.reverse ++ scope.names, scope.imports.push,
    scope.aliases.push, scope.vars.push⟩

/-- The names that are left when the innermost `depth` are dropped.  A depth of zero drops all of
them, and a negative one keeps that many of the outermost. -/
def keptNames (names : List String) (depth : Int) : List String :=
  if 0 < depth then names.drop depth.toNat
  else names.drop (names.length - depth.natAbs)

/-- Closes the innermost scope, which has entered `depth` names and `moduleDepth` segments. -/
def leave (scope : Scope) (depth moduleDepth : Int) : Except ScopeError Scope :=
  if (scope.names.length : Int) ≤ depth ∨ (scope.modulePath.length : Int) < moduleDepth then
    .error (.cannotClose depth scope.names)
  else
    match scope.imports.pop?, scope.aliases.pop?, scope.vars.pop? with
    | some imports, some aliases, some vars =>
      .ok ⟨scope.modulePath.take (scope.modulePath.length - moduleDepth).toNat,
        keptNames scope.names depth, imports, aliases, vars⟩
    | _, _, _ => .error .noFrame

/-- Notes an import in the innermost scope. -/
def addImport (scope : Scope) (name : String) : Except ScopeError Scope :=
  match scope.imports.prepend? name with
  | some imports => .ok { scope with imports := imports }
  | none => .error .noFrame

/-- Notes an alias in the innermost scope. -/
def addAlias (scope : Scope) (short full : String) : Except ScopeError Scope :=
  match scope.aliases.prepend? (short, full) with
  | some aliases => .ok { scope with aliases := aliases }
  | none => .error .noFrame

/-- Notes a variable in the innermost scope. -/
def addVar (scope : Scope) (name : String) : Except ScopeError Scope :=
  match scope.vars.prepend? name with
  | some vars => .ok { scope with vars := vars }
  | none => .error .noFrame

/-- The frames of a stack as text, outermost first. -/
def framesText {α : Type} (entry : α → String) (frames : FrameStack α) : String :=
  bracketed (frames.reverse.map fun frame => bracketed (frame.map entry))

/-- The text of a state in messages. -/
def text (scope : Scope) : String :=
  "\x7b'module_path': " ++ quoteList scope.modulePath ++
    ", 'scope_stack': " ++ quoteList scope.names.reverse ++
    ", 'import_frames': " ++ framesText quote scope.imports ++
    ", 'alias_frames': " ++ framesText Context.quotePair scope.aliases ++
    ", 'var_frames': " ++ framesText quote scope.vars ++ "\x7d"

/-- Closing a scope undoes opening it. -/
theorem leave_enter (scope : Scope) (names segments : List String) (h : names ≠ [])
    (hs : scope.names ≠ []) :
    (scope.enter names segments).leave names.length segments.length = .ok scope := by
  have hn : 0 < names.length := List.length_pos_iff.mpr h
  have hsn : 0 < scope.names.length := List.length_pos_iff.mpr hs
  have hcond : ¬ (((scope.enter names segments).names.length : Int) ≤ (names.length : Int) ∨
      ((scope.enter names segments).modulePath.length : Int) < (segments.length : Int)) := by
    simp only [enter, List.length_append, List.length_reverse, Int.natCast_add]
    omega
  rw [leave, if_neg hcond]
  have hpath : ((scope.enter names segments).modulePath.length - (segments.length : Int)).toNat =
      scope.modulePath.length := by
    simp only [enter, List.length_append, Int.natCast_add]
    omega
  rw [hpath]
  have hkept : keptNames (scope.enter names segments).names (names.length : Int) = scope.names := by
    have hpos : (0 : Int) < (names.length : Int) := by omega
    rw [keptNames, if_pos hpos]
    simp [enter]
  rw [hkept]
  simp [enter, FrameStack.push, FrameStack.pop?]

end Scope

/-- The wording of an error that means a fault of the analysis itself; the others have none. -/
def ScopeError.message? : ScopeError → Option String
  | .cannotClose depth names =>
    some ("Cannot close " ++ toString depth ++ " scope(s) with scope stack " ++
      quoteList names.reverse)
  | .unbalanced scope =>
    some ("Unbalanced scope state after traversal: " ++ scope.text)
  | _ => none

end LineScope
