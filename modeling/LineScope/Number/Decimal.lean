import LineScope.Number.Binary64
import LineScope.Number.Integer

/-!
# Decimal text of floating-point numbers

A floating-point number is written with the fewest digits that read back as the same number, and of
those with the digits nearest to it.
-/

namespace LineScope.Number.Binary64

open LineScope.Text LineScope.Number

/-! ### Shortest digits -/

/-- A decimal: `digits * 10 ^ exponent`. -/
structure Decimal where
  digits : Nat
  exponent : Int
deriving DecidableEq, Repr

/-- The value of a finite number without its sign as a ratio. -/
def ratio (mantissa : Nat) (exponent : Int) : Nat × Nat :=
  if 0 ≤ exponent then (mantissa * twoPow exponent.toNat, 1)
  else (mantissa, twoPow (-exponent).toNat)

/-- The least `k` with `num / den < 10 ^ k`, searched upwards from a lower bound. -/
def magnitudeFrom (num den : Nat) : Nat → Int → Int
  | 0, k => k
  | fuel + 1, k =>
    let below := if 0 ≤ k then num < den * tenPow k.toNat else num * tenPow (-k).toNat < den
    if below then k else magnitudeFrom num den fuel (k + 1)

/-- The number of digits before the point of a positive ratio; negative if zeros follow the point. -/
def magnitude (num den : Nat) : Int :=
  let bits : Int := (num.log2 : Int) - den.log2
  magnitudeFrom num den 4 (Int.fdiv (bits * 30103) 100000 - 1)

/-- The decimal with at most `count` digits that reads back as the number, if there is one: of the
two neighbours of the number on that grid the nearer one. -/
def onGrid? (mantissa : Nat) (exponent : Int) (count : Nat) : Option Decimal :=
  let (num, den) := ratio mantissa exponent
  let unit := magnitude num den - count
  let (n, d) :=
    if 0 ≤ unit then (num, den * tenPow unit.toNat) else (num * tenPow (-unit).toNat, den)
  let low := n / d
  let reads := fun digits => ofDecimal false digits unit == .finite false mantissa exponent
  let lowNearer := 2 * (n % d) < d || (2 * (n % d) == d && low % 2 == 0)
  let (near, far) := if lowNearer then (low, low + 1) else (low + 1, low)
  if reads near then some ⟨near, unit⟩
  else if reads far then some ⟨far, unit⟩
  else none

/-- The shortest decimal that reads back as a positive number; seventeen digits always do. -/
def shortest (mantissa : Nat) (exponent : Int) : Decimal :=
  ((List.range 17).findSome? fun i => onGrid? mantissa exponent (i + 1)).getD ⟨0, 0⟩

/-! ### Writing -/

/-- The exponents of the first digit for which a number is written positionally. -/
def isPositional (exponent : Int) : Bool := -4 ≤ exponent && exponent < 16

/-- Digits without the zeros at their end. -/
def dropZeros (digits : List Char) : List Char := dropRight (· == '0') digits

/-- The exponent with its sign and at least two digits. -/
def exponentText (exponent : Int) : List Char :=
  let ds := Nat.toDigits 10 exponent.natAbs
  (if exponent < 0 then '-' else '+') :: (List.replicate (2 - ds.length) '0' ++ ds)

/-- Digits with a point after the first `before` of them. -/
def pointed (digits : List Char) (before : Int) : List Char :=
  if before ≤ 0 then ['0', '.'] ++ List.replicate (-before).toNat '0' ++ digits
  else
    let n := before.toNat
    let whole := digits.take n
    let fraction := digits.drop n
    whole ++ List.replicate (n - whole.length) '0' ++ ['.'] ++
      (if fraction.isEmpty then ['0'] else fraction)

/-- A positive decimal in positional or scientific notation. -/
def Decimal.text (decimal : Decimal) : List Char :=
  let all := Nat.toDigits 10 decimal.digits
  let before : Int := all.length + decimal.exponent
  let digits := dropZeros all
  if isPositional (before - 1) then pointed digits before
  else
    let fraction := digits.drop 1
    digits.take 1 ++ (if fraction.isEmpty then [] else '.' :: fraction) ++
      'e' :: exponentText (before - 1)

/-- The text of a number. -/
def text : Binary64 → String
  | .undefined => "nan"
  | .infinite negative => if negative then "-inf" else "inf"
  | .finite negative mantissa exponent =>
    let digits := if mantissa = 0 then "0.0" else String.ofList (shortest mantissa exponent).text
    if negative then "-" ++ digits else digits

/-! ### Reading -/

/-- Splits digits, with single underscores between them, off a text. -/
def takeDigits (cs : List Char) : List Char × List Char :=
  cs.span fun c => isDecimal c || c == '_'

/-- Digits or nothing; underscores only between digits. -/
def isDigitRun (cs : List Char) : Bool := cs.isEmpty || wellSeparated cs

/-- The value of digits, and how many they are. -/
def digitRunValue (cs : List Char) : Nat := positional 10 (cs.filterMap decimalValue?)

/-- Reads the exponent part, which may be missing. -/
def readExponent? : List Char → Option Int
  | [] => some 0
  | c :: cs =>
    if c = 'e' ∨ c = 'E' then
      let (negative, digits) :=
        match cs with
        | '-' :: ds => (true, ds)
        | '+' :: ds => (false, ds)
        | ds => (false, ds)
      if wellSeparated digits && digits.all (fun d => isDecimal d || d == '_') then
        let n : Int := digitRunValue digits
        some (if negative then -n else n)
      else none
    else none

/-- Reads an unsigned decimal number that must fill the text. -/
def readMagnitude? (negative : Bool) (cs : List Char) : Option Binary64 :=
  let (whole, rest) := takeDigits cs
  let (fraction, rest) :=
    match rest with
    | '.' :: rest => takeDigits rest
    | rest => ([], rest)
  if (whole.isEmpty && fraction.isEmpty) || !isDigitRun whole || !isDigitRun fraction then none
  else
    (readExponent? rest).map fun exponent =>
      let places := (fraction.filter isDecimal).length
      ofDecimal negative (digitRunValue (whole ++ fraction)) (exponent - places)

/-- Reads a floating-point number: a decimal, an infinity or the undefined number. -/
def read? (source : String) : Option Binary64 :=
  let body := trimNumeral source.toList
  let (negative, cs) :=
    match body with
    | '-' :: cs => (true, cs)
    | '+' :: cs => (false, cs)
    | cs => (false, cs)
  let word := String.ofList (cs.map Char.toLower)
  if word = "inf" ∨ word = "infinity" then some (.infinite negative)
  else if word = "nan" then some .undefined
  else readMagnitude? negative cs

end LineScope.Number.Binary64
