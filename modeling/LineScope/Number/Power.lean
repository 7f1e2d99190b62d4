/-!
# Powers

The powers of two and of ten that binary and decimal numbers are scaled by.
-/

namespace LineScope.Number

/-- A power of two. -/
def twoPow (n : Nat) : Nat := Nat.pow 2 n

/-- A power of ten. -/
def tenPow (n : Nat) : Nat := Nat.pow 10 n

end LineScope.Number
