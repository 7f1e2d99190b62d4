import LineScope.Analysis.Marker
import LineScope.Diagnostic.Failure
import LineScope.Log
import LineScope.Scope.State

/-!
# Recovery from parse failures

A file that is being edited usually has one broken line.  Recovery masks the line that a failure
points at and parses again, up to a number of attempts.  Where the failure is at the first token of
its line, the unfinished line may be one above it, so the nearest code lines above are tried too.
-/

namespace LineScope

open LineScope.Text LineScope.Number

/-- What ends an analysis without a result: a broken scope state, or a line number that is too long
to be read. -/
inductive Escape where
  | scope (error : ScopeError)
  | numeral (fault : Number.Fault)
deriving DecidableEq, Repr

/-- The result of an analysis: what was found or why nothing was, the lines that had to be masked,
and the name of the file. -/
structure Analysis (α : Type) where
  outcome : Except Failure α
  recoveredLines : List Int
  file : String

namespace Analysis

variable {α : Type}

/-- A result without masked lines. -/
def ok (value : α) (file : String) : Analysis α := ⟨.ok value, [], file⟩

/-- A failure. -/
def failed (failure : Failure) (file : String) : Analysis α := ⟨.error failure, [], file⟩

/-- Whether something was found. -/
def success (analysis : Analysis α) : Bool := analysis.outcome.isOk

/-- Whether lines had to be masked. -/
def recovered (analysis : Analysis α) : Bool := !analysis.recoveredLines.isEmpty

end Analysis

/-! ### The line of a failure -/

/-- The digits behind the word `line` and one blank at the front of a text. -/
def lineDigitsAt? (cs : List Char) : Option (List Char) :=
  match cs with
  | 'l' :: 'i' :: 'n' :: 'e' :: blank :: rest =>
    let digits := rest.takeWhile isDecimal
    if isSpace blank && !digits.isEmpty then some digits else none
  | _ => none

/-- The digits of the first line number in a message. -/
def lineDigits? : List Char → Option (List Char)
  | [] => none
  | c :: cs => (lineDigitsAt? (c :: cs)).or (lineDigits? cs)

/-- The line that a failure carries, if it is a positive number. -/
def carriedLine? (failure : Failure) : Option Int :=
  match failure.lineMark? with
  | some (.number line) => if 0 < line then some line else none
  | _ => none

/-- The line that a failure points at: the one that it carries, else the first one in its message,
or in its text if the message is empty. -/
def errorLine (failure : Failure) : Except Number.Fault (Option Int) :=
  match carriedLine? failure with
  | some line => .ok (some line)
  | none =>
    let message := if failure.message.isEmpty then failure.text else failure.message
    match lineDigits? message.toList with
    | some digits => (readDigits digits).map some
    | none => .ok none

/-! ### Lines above -/

/-- A line of a source; line zero is the last one. -/
def lineOf (lines : List (List Char)) (line : Int) : List Char :=
  if line = 0 then (lines.getLast?).getD [] else (lines[line.toNat - 1]?).getD []

/-- Whether a failure is at the first token of a line. -/
def opensLine (source : String) (failure : Failure) (line : Int) : Bool :=
  match failure.location with
  | none => false
  | some location =>
    let lines := sourceLines source.toList
    if location.line ≠ line ∨ location.column < 1 ∨ (lines.length : Int) < line then false
    else isBlank ((lineOf lines line).take (location.column - 1).toNat)

/-- Whether a line holds code: it is neither blank nor a comment. -/
def holdsCode (line : List Char) : Bool :=
  match trim line with
  | [] => false
  | c :: _ => c != '#'

/-- How many lines above a failure are tried. -/
def lookBehind : Nat := 2

/-- The numbers of the code lines among the first `count` lines, nearest first, without those to be
skipped. -/
def codeLinesUpTo (lines : List (List Char)) (skipped : List Int) : (count : Nat) → List Int
  | 0 => []
  | n + 1 =>
    let rest := codeLinesUpTo lines skipped n
    if holdsCode ((lines[n]?).getD []) && !skipped.contains (n + 1 : Int) then (n + 1 : Int) :: rest
    else rest

/-- The nearest code lines above a line. -/
def precedingCodeLines (source : String) (line : Int) (skipped : List Int) : List Int :=
  let lines := sourceLines source.toList
  (codeLinesUpTo lines skipped (min line (lines.length + 1) - 1).toNat).take lookBehind

/-! ### Attempts -/

/-- The component that notes recoveries. -/
def recoveryComponent : String := "exscope.analysis.recovery"

/-- The parse calls and the records of a recovery so far. -/
structure Trace where
  calls : List String
  records : List LogRecord

/-- A parser without recovery.  It is told how many calls came before, so that its answers may
depend on that. -/
abbrev Reparse (α : Type) := Nat → String → Except Escape (Logged (Analysis α))

namespace Trace

/-- A trace without calls. -/
def start : Trace := ⟨[], []⟩

/-- Notes a record. -/
def note (trace : Trace) (severity : Severity) (message : String) : Trace :=
  { trace with records := trace.records ++ [⟨severity, recoveryComponent, message⟩] }

/-- Calls the parser. -/
def call {α : Type} (trace : Trace) (reparse : Reparse α) (text : String) :
    Except Escape (Analysis α × Trace) := do
  let answer ← reparse trace.calls.length text
  return (answer.value, ⟨trace.calls ++ [text], trace.records ++ answer.records⟩)

end Trace

variable {α : Type}

/-- Parses with one of several lines masked, up to the first success. -/
def tryLines (reparse : Reparse α) (source : String) :
    List Int → Trace → Except Escape (Option (Int × Analysis α) × Trace)
  | [], trace => .ok (none, trace)
  | line :: lines, trace => do
    let (analysis, trace) ← trace.call reparse (maskLine source line)
    if analysis.success then return (some (line, analysis), trace)
    else tryLines reparse source lines trace

/-- A success with the masked lines. -/
def recoveredWith (analysis : Analysis α) (lines : List Int) (file : String) (trace : Trace) :
    Analysis α × Trace :=
  let lines := ascending lines
  let shown := bracketed (lines.map fun line => toString line)
  ({ analysis with recoveredLines := lines },
    trace.note .info (file ++ ": recovered from parse error by replacing line(s) " ++ shown))

/-- Attempts to recover.  Each attempt masks the line of the current failure; `replaced` are the
lines masked so far and `source` is the text with them masked. -/
def attempts (reparse : Reparse α) (file : String) :
    (budget : Nat) → (source : String) → Failure → (replaced : List Int) → Trace →
      Except Escape (Analysis α × Trace)
  | 0, _, failure, _, trace => .ok (.failed failure file, trace)
  | budget + 1, source, failure, replaced, trace => do
    match ← (errorLine failure).mapError Escape.numeral with
    | none =>
      return (.failed failure file,
        trace.note .debug (file ++ ": no line in error, giving up recovery"))
    | some line =>
      if replaced.contains line then
        return (.failed failure file,
          trace.note .debug
            (file ++ ": line " ++ toString line ++ " already replaced, giving up recovery"))
      else
        let masked := maskLine source line
        let (analysis, trace) ← trace.call reparse masked
        match analysis.outcome with
        | .ok _ => return recoveredWith analysis (line :: replaced) file trace
        | .error next =>
          let above :=
            if opensLine source failure line then precedingCodeLines source line replaced else []
          let (found, trace) ← tryLines reparse source above trace
          match found with
          | some (earlier, analysis) =>
            return recoveredWith analysis (earlier :: replaced) file trace
          | none => attempts reparse file budget masked next (line :: replaced) trace

/-- Recovers from a failure with at most `budget` attempts. -/
def recover (reparse : Reparse α) (source : String) (failure : Failure) (budget : Int)
    (file : String) : Except Escape (Analysis α × Trace) :=
  attempts reparse file budget.toNat source failure [] .start

end LineScope
