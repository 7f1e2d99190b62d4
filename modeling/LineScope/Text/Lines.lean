/-!
# Lines of a text

Three rules cut a text into lines.  Source lines end at a line feed, which a carriage return may
precede, and number the positions of a program.  Display lines end at any of eleven breaks and are
what a reader sees.  A file is read with every break it may hold turned into a line feed.
-/

namespace LineScope.Text

/-! ### Source lines -/

/-- Puts a character in front of the first line. -/
def consFirst (c : Char) : List (List Char) → List (List Char)
  | [] => [[c]]
  | l :: ls => (c :: l) :: ls

/-- The pieces of a text between its line feeds; there is always at least one. -/
def feedLines : List Char → List (List Char)
  | [] => [[]]
  | c :: cs => if c = '\n' then [] :: feedLines cs else consFirst c (feedLines cs)

/-- A line without one carriage return at its end. -/
def dropReturn (l : List Char) : List Char :=
  if l.getLast? = some '\r' then l.dropLast else l

/-- Drops the carriage return of every line that a line feed ends, which is all but the last. -/
def dropReturns : List (List Char) → List (List Char)
  | [] => []
  | [l] => [l]
  | l :: m :: ls => dropReturn l :: dropReturns (m :: ls)

/-- The lines of a source: a line feed, with or without a carriage return before it, ends a line. -/
def sourceLines (cs : List Char) : List (List Char) := dropReturns (feedLines cs)

/-- The lines put together again with a line feed between them. -/
def joinLines : List (List Char) → List Char
  | [] => []
  | [l] => l
  | l :: m :: ls => l ++ '\n' :: joinLines (m :: ls)

theorem consFirst_ne_nil (c : Char) (ls : List (List Char)) : consFirst c ls ≠ [] := by
  cases ls <;> simp [consFirst]

theorem feedLines_ne_nil (cs : List Char) : feedLines cs ≠ [] := by
  cases cs with
  | nil => simp [feedLines]
  | cons c cs =>
    by_cases h : c = '\n'
    · simp [feedLines, h]
    · simpa [feedLines, h] using consFirst_ne_nil c (feedLines cs)

theorem joinLines_consFirst (c : Char) (ls : List (List Char)) (h : ls ≠ []) :
    joinLines (consFirst c ls) = c :: joinLines ls := by
  match ls, h with
  | [l], _ => rfl
  | l :: m :: ls, _ => rfl

/-- Cutting at line feeds loses nothing. -/
theorem joinLines_feedLines (cs : List Char) : joinLines (feedLines cs) = cs := by
  induction cs with
  | nil => rfl
  | cons c cs ih =>
    by_cases h : c = '\n'
    · cases hl : feedLines cs with
      | nil => exact absurd hl (feedLines_ne_nil cs)
      | cons l ls =>
        simp only [feedLines, h, if_true, hl, joinLines, List.nil_append]
        rw [← hl, ih]
    · simp only [feedLines, if_neg h]
      rw [joinLines_consFirst c _ (feedLines_ne_nil cs), ih]

/-- The number of source lines is one more than the number of line feeds. -/
theorem length_feedLines (cs : List Char) : (feedLines cs).length = cs.count '\n' + 1 := by
  induction cs with
  | nil => rfl
  | cons c cs ih =>
    by_cases h : c = '\n'
    · simp [feedLines, h, ih]
    · cases hl : feedLines cs with
      | nil => exact absurd hl (feedLines_ne_nil cs)
      | cons l ls =>
        have hc : ¬ (c == '\n') = true := by simpa using h
        rw [hl] at ih
        simpa [feedLines, h, hl, consFirst, List.count_cons, hc] using ih

/-! ### Display lines -/

/-- The characters that end a display line. -/
def isLineBreak (c : Char) : Bool :=
  let n := c.toNat
  (10 ≤ n && n ≤ 13) || (28 ≤ n && n ≤ 30) || n == 0x85 || n == 0x2028 || n == 0x2029

/-- A display line and the break that ends it, which only the last line may lack. -/
structure DisplayLine where
  text : List Char
  ending : List Char
deriving DecidableEq, Repr

/-- The display lines of a text; a carriage return and a line feed together are one break. -/
def displayLines : List Char → List DisplayLine
  | [] => []
  | c :: cs =>
    if isLineBreak c then
      match c, displayLines cs with
      | '\r', ⟨[], '\n' :: _⟩ :: ls => ⟨[], ['\r', '\n']⟩ :: ls
      | c, ls => ⟨[], [c]⟩ :: ls
    else
      match displayLines cs with
      | [] => [⟨[c], []⟩]
      | l :: ls => ⟨c :: l.text, l.ending⟩ :: ls

/-! ### Lines of a file -/

/-- A text as it is read from a file: a carriage return, and the line feed that may follow it,
become one line feed. -/
def foldBreaks : List Char → List Char
  | [] => []
  | '\r' :: '\n' :: cs => '\n' :: foldBreaks cs
  | '\r' :: cs => '\n' :: foldBreaks cs
  | c :: cs => c :: foldBreaks cs

end LineScope.Text
