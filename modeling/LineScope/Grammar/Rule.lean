import LineScope.Grammar.Cursor

/-!
# Grammar rules

A rule reads from a cursor.  A grammar may be ambiguous, so a rule finds every way to read, in the
order in which the ways are listed, and tells how far any attempt has come: the farthest position
is where a source that cannot be read is wrong.
-/

namespace LineScope.Grammar

/-- What a rule finds: the farthest position it has come to, and every value it can read with the
position behind it. -/
structure Outcome (α : Type) where
  reach : Nat
  found : List (α × Cursor)

namespace Outcome

variable {α β : Type}

/-- Nothing found. -/
def none : Outcome α := ⟨0, []⟩

/-- The ways of two outcomes, those of the first in front. -/
def append (a b : Outcome α) : Outcome α := ⟨max a.reach b.reach, a.found ++ b.found⟩

/-- Goes on from every way of an outcome. -/
def bind (a : Outcome α) (f : α → Cursor → Outcome β) : Outcome β :=
  a.found.foldr (fun way rest => (f way.1 way.2).append rest) ⟨a.reach, []⟩

theorem mem_found_append (a b : Outcome α) (way : α × Cursor) :
    way ∈ (a.append b).found ↔ way ∈ a.found ∨ way ∈ b.found := by
  simp [append]

theorem mem_found_bind (a : Outcome α) (f : α → Cursor → Outcome β) (way : β × Cursor) :
    way ∈ (a.bind f).found ↔ ∃ first ∈ a.found, way ∈ (f first.1 first.2).found := by
  have key : ∀ (l : List (α × Cursor)) (n : Nat),
      way ∈ (l.foldr (fun way rest => (f way.1 way.2).append rest) ⟨n, []⟩).found ↔
        ∃ first ∈ l, way ∈ (f first.1 first.2).found := by
    intro l n
    induction l with
    | nil => simp
    | cons x xs ih => simp [mem_found_append, ih]
  exact key a.found a.reach

end Outcome

/-- A grammar rule that reads a value. -/
def Rule (α : Type) : Type := Cursor → Outcome α

namespace Rule

variable {α β : Type}

instance : Monad Rule where
  pure a := fun c => ⟨0, [(a, c)]⟩
  bind p f := fun c => (p c).bind fun a c => f a c

/-- The rule that reads nothing at all. -/
def fail : Rule α := fun _ => Outcome.none

/-- Reads in one of two ways. -/
def either (p q : Rule α) : Rule α := fun c => (p c).append (q c)

/-- Reads in one of several ways; the ways listed first are preferred. -/
def choice (rules : List (Rule α)) : Rule α := rules.foldr either fail

/-- Reads `p` once and goes on in one of several ways; all ways to go on in the first manner are
preferred to those in the second, and so on. -/
def branch (p : Rule α) (ways : List (α → Rule β)) : Rule β := fun c =>
  let first := p c
  ways.foldr (fun way rest => (first.bind fun a c => way a c).append rest) ⟨first.reach, []⟩

/-- Reads `p` or nothing. -/
def optional (p : Rule α) : Rule (Option α) := either (some <$> p) (pure none)

/-- Reads `p` or nothing, and drops the value. -/
def skip (p : Rule α) : Rule Unit := either ((fun _ => ()) <$> p) (pure ())

/-- Reads at most a number of steps. -/
def iterate (step : α → Rule α) : Nat → α → Rule α
  | 0, a => pure a
  | n + 1, a => either (pure a) (step a >>= iterate step n)

/-- Reads any number of steps.  A step reads at least one character, so there are no more steps
than characters left. -/
def loop (step : α → Rule α) (a : α) : Rule α := fun c => iterate step c.rest.length a c

/-- The line of the position. -/
def line : Rule Nat := fun c => ⟨0, [(c.line, c)]⟩

/-- Records a token without a value. -/
def report (fault : Fault) : Rule Unit := fun c => ⟨0, [((), c.report fault)]⟩

/-- Puts a way in front of the first that it precedes. -/
def insertWay (precedes : α → α → Bool) (way : α × Cursor) : List (α × Cursor) → List (α × Cursor)
  | [] => [way]
  | w :: ways =>
    if precedes way.1 w.1 then way :: w :: ways else w :: insertWay precedes way ways

/-- Lists the ways in an order of their values. -/
def ordered (precedes : α → α → Bool) (p : Rule α) : Rule α := fun c =>
  let all := p c
  ⟨all.reach, all.found.foldr (insertWay precedes) []⟩

/-- Of the ways that end at one position only the first. -/
def firstPerEnd : List (α × Cursor) → List (α × Cursor)
  | [] => []
  | way :: ways => way :: (firstPerEnd ways).filter fun w => w.2.offset != way.2.offset

/-- Keeps the preferred way for each position that the rule ends at. -/
def preferred (p : Rule α) : Rule α := fun c =>
  let all := p c
  ⟨all.reach, firstPerEnd all.found⟩

theorem mem_insertWay (precedes : α → α → Bool) (new way : α × Cursor)
    (ways : List (α × Cursor)) :
    way ∈ insertWay precedes new ways ↔ way = new ∨ way ∈ ways := by
  induction ways with
  | nil => simp [insertWay]
  | cons w ways ih =>
    unfold insertWay
    split
    · exact List.mem_cons
    · simp only [List.mem_cons, ih]
      exact or_left_comm

/-- An order leaves the ways as they are. -/
theorem mem_found_ordered (precedes : α → α → Bool) (p : Rule α) (c : Cursor)
    (way : α × Cursor) : way ∈ (ordered precedes p c).found ↔ way ∈ (p c).found := by
  unfold ordered
  dsimp only
  induction (p c).found with
  | nil => exact Iff.rfl
  | cons w ways ih => rw [List.foldr_cons, mem_insertWay, ih, List.mem_cons]

theorem mem_of_mem_firstPerEnd (ways : List (α × Cursor)) (way : α × Cursor)
    (h : way ∈ firstPerEnd ways) : way ∈ ways := by
  induction ways with
  | nil => exact h
  | cons w ws ih =>
    rcases List.mem_cons.mp h with rfl | h
    · exact List.mem_cons_self
    · exact List.mem_cons_of_mem _ (ih (List.mem_filter.mp h).1)

end Rule

/-- A terminal: the width of its match in a text, given the character before the text. -/
abbrev Terminal := Option Char → List Char → Option Nat

/-- The text and the line of a token. -/
structure Token where
  text : String
  line : Nat

/-- Reads a token, and the blanks and comments behind it. -/
def Rule.token (terminal : Terminal) : Rule Token := fun c =>
  match terminal c.before c.rest with
  | none => Outcome.none
  | some width =>
    let behind := (c.advance width).skipIgnored
    ⟨behind.offset, [(⟨String.ofList (c.rest.take width), c.line⟩, behind)]⟩

end LineScope.Grammar
