/-!
# Ranges of code points

Character classes that reach beyond ASCII are kept as tables of closed ranges.
-/

namespace LineScope.Text

/-- Whether a code point lies in one of the closed ranges. -/
def inRanges (ranges : List (Nat × Nat)) (n : Nat) : Bool :=
  ranges.any fun r => r.1 ≤ n && n ≤ r.2

end LineScope.Text
