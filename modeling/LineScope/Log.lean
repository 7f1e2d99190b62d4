/-!
# Log records

What the analysis notes on its way, with a level and the part of the program that notes it.
-/

namespace LineScope

/-- How important a record is. -/
inductive Severity where
  | debug | info | warning
deriving DecidableEq, Repr

/-- The name of a level. -/
def Severity.name : Severity → String
  | .debug => "DEBUG"
  | .info => "INFO"
  | .warning => "WARNING"

/-- The rank of a level. -/
def Severity.rank : Severity → Nat
  | .debug => 10
  | .info => 20
  | .warning => 30

/-- A log record. -/
structure LogRecord where
  severity : Severity
  component : String
  message : String
deriving DecidableEq, Repr

/-- The records that are at least as important as a level. -/
def recordsFrom (least : Severity) (records : List LogRecord) : List LogRecord :=
  records.filter fun record => least.rank ≤ record.severity.rank

/-- A value with the records made on the way to it. -/
structure Logged (α : Type) where
  value : α
  records : List LogRecord

namespace Logged

/-- A value without records. -/
def quiet {α : Type} (value : α) : Logged α := ⟨value, []⟩

/-- A value behind one more record. -/
def note {α : Type} (record : LogRecord) (next : Logged α) : Logged α :=
  ⟨next.value, record :: next.records⟩

/-- The records of two steps in order. -/
def andThen {α β : Type} (first : Logged α) (next : α → Logged β) : Logged β :=
  let second := next first.value
  ⟨second.value, first.records ++ second.records⟩

/-- Another value with the same records. -/
def map {α β : Type} (f : α → β) (logged : Logged α) : Logged β := ⟨f logged.value, logged.records⟩

instance : Monad Logged where
  pure := quiet
  bind := andThen

/-- Notes a record. -/
def tell (severity : Severity) (component message : String) : Logged Unit :=
  ⟨(), [⟨severity, component, message⟩]⟩

end Logged

end LineScope
