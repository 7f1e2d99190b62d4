import LineScope.Grammar.Fault

/-!
# Positions in a source

A cursor stands between two characters of a source.  It knows how many characters and which line it
has come to, the character before it, the text that is left, and the first token on its way that
denotes no value.
-/

namespace LineScope.Grammar

/-- A position in a source. -/
structure Cursor where
  /-- The number of characters before the position. -/
  offset : Nat
  /-- The line of the position: one more than the number of line feeds before it. -/
  line : Nat
  /-- The character just before the position. -/
  before : Option Char
  /-- The text from the position on. -/
  rest : List Char
  /-- The first token so far that denotes no value. -/
  fault : Option Fault

namespace Cursor

/-- The position in front of a text. -/
def start (source : List Char) : Cursor := ⟨0, 1, none, source, none⟩

/-- The position one character further on; at the end it stays. -/
def next (c : Cursor) : Cursor :=
  match c.rest with
  | [] => c
  | x :: xs => ⟨c.offset + 1, if x = '\n' then c.line + 1 else c.line, some x, xs, c.fault⟩

/-- The position a number of characters further on. -/
def advance : Nat → Cursor → Cursor
  | 0, c => c
  | n + 1, c => advance n c.next

/-- The width of the blanks and comments at the front of a text; inside a comment everything up to
the line feed belongs to it. -/
def ignoredWidth : (inComment : Bool) → List Char → Nat
  | _, [] => 0
  | false, x :: xs =>
    if x = ' ' ∨ x = '\t' ∨ x = '\x0c' then ignoredWidth false xs + 1
    else if x = '#' then ignoredWidth true xs + 1
    else 0
  | true, x :: xs => if x = '\n' then 0 else ignoredWidth true xs + 1

/-- The position behind the blanks and comments that follow. -/
def skipIgnored (c : Cursor) : Cursor := c.advance (ignoredWidth false c.rest)

/-- Records a fault unless there is an earlier one. -/
def report (fault : Fault) (c : Cursor) : Cursor := { c with fault := c.fault.or (some fault) }

/-- What a cursor says about the source it stands in. -/
structure In (source : List Char) (c : Cursor) : Prop where
  split : source = source.take c.offset ++ c.rest
  offset_le : c.offset ≤ source.length
  line_eq : c.line = (source.take c.offset).count '\n' + 1

theorem start_in (source : List Char) : (start source).In source := by
  constructor <;> simp [start]

theorem next_in (source : List Char) (c : Cursor) (h : c.In source) : c.next.In source := by
  match hr : c.rest with
  | [] => simpa [next, hr] using h
  | x :: xs =>
    have hd : source.drop c.offset = x :: xs := by
      have hs := h.split
      have hl : (source.take c.offset).length = c.offset := by simp [h.offset_le]
      have hd : (source.take c.offset ++ c.rest).drop c.offset = c.rest := List.drop_left' hl
      rw [← hs, hr] at hd
      exact hd
    have hlt : c.offset < source.length := by
      have hlen := congrArg List.length hd
      simp only [List.length_drop, List.length_cons] at hlen
      omega
    have htake : source.take (c.offset + 1) = source.take c.offset ++ [x] := by
      rw [List.take_add, hd]
      rfl
    refine ⟨?_, ?_, ?_⟩
    · simp only [next, hr, htake, List.append_assoc, List.singleton_append]
      rw [← hr]
      exact h.split
    · simp only [next, hr]
      omega
    · by_cases hx : x = '\n'
      · simp [next, hr, htake, hx, h.line_eq]
      · simp [next, hr, htake, hx, h.line_eq]

theorem advance_in (source : List Char) (n : Nat) (c : Cursor) (h : c.In source) :
    (c.advance n).In source := by
  induction n generalizing c with
  | zero => exact h
  | succ n ih => exact ih c.next (next_in source c h)

end Cursor

end LineScope.Grammar
