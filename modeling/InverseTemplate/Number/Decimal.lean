/-
# Doubles as decimals

A double is written with the fewest digits that read back as the same double; among several
decimals of that length the nearest one is taken, and of two equally near ones the one with an
even last digit.  Whether a decimal reads back is a question about the interval of reals that
round to the double: its ends lie half way to the neighbours and belong to it exactly when the
mantissa is even.

The search walks the grids of 1, 2, … 17 digits.  On each it looks at the two grid points
around the value: if any point of the grid lies in the interval, one of these two does.

`Decimal.fixed` is the other format: a given number of places, rounded half to even on the
exact value.
-/
import InverseTemplate.Number.Binary64

namespace InverseTemplate

/-- The decimal `digits * 10 ^ scale`. -/
structure Decimal where
  digits : Nat
  scale : Int
deriving DecidableEq

namespace Decimal

/-- The exponent of ten of the first digit of `numerator / denominator`, for positive ones. -/
def leadingExponent (numerator denominator : Nat) : Int :=
  if denominator ≤ numerator then ((Text.ofNat (numerator / denominator)).length : Int) - 1
  else
    let places := (Text.ofNat (denominator / numerator)).length - 1
    if denominator ≤ numerator * Nat.pow 10 places then -(places : Int) else -(places : Int) - 1

/-- The point of the grid with step `10 ^ scale` that is nearest to the double among those that
round to it, if there is one. -/
def onGrid (mantissa shift : Nat) (scale : Int) : Option Nat :=
  -- everything in quarters of a unit, and multiplied out so that one grid step is `step`
  let tens := Nat.pow 10 (-scale).toNat
  let step := 4 * Binary64.unitsPerOne * Nat.pow 10 scale.toNat
  let ulp := Nat.pow 2 shift * tens
  let value := 4 * mantissa * ulp
  let low := value - (if mantissa = Nat.pow 2 52 ∧ shift ≠ 0 then ulp else 2 * ulp)
  let high := value + 2 * ulp
  let closed := mantissa % 2 = 0
  let roundsHere (d : Nat) : Bool :=
    if closed then low ≤ d * step && d * step ≤ high else low < d * step && d * step < high
  let below := value / step
  let above := below + 1
  match roundsHere below, roundsHere above with
  | true, true =>
      let shortfall := value - below * step
      let excess := above * step - value
      some (if shortfall < excess then below else if excess < shortfall then above
            else if below % 2 = 0 then below else above)
  | true, false => some below
  | false, true => some above
  | false, false => none

/-- The shortest decimal that reads back as the positive double. -/
def shortest (mantissa shift : Nat) : Decimal :=
  let lead := leadingExponent (mantissa * Nat.pow 2 shift) Binary64.unitsPerOne
  let found := (List.range 17).findSome? fun (i : Nat) =>
    let scale := lead - (i : Int)
    (onGrid mantissa shift scale).map fun digits => (⟨digits, scale⟩ : Decimal)
  found.getD ⟨0, 0⟩

/-- The digits without the zeros at their end, and the exponent of ten of the first digit. -/
def scientific (d : Decimal) : Text × Int :=
  let written := Text.ofNat d.digits
  let significant := (written.reverse.dropWhile (· = '0')).reverse
  (significant, d.scale + (written.length : Int) - 1)

/-! ## How a double is written -/

/-- Exponents of ten from this one on are written positionally … -/
def leastPositional : Int := -4

/-- … up to, and without, this one. -/
def leastExponential : Int := 16

/-- An exponent with its sign and at least two digits. -/
def exponentText (e : Int) : Text :=
  let digits := Text.ofNat e.natAbs
  (if e < 0 then '-' else '+') :: (if digits.length < 2 then '0' :: digits else digits)

/-- Significant digits and the exponent of the first of them, positionally with at least one
place, or with an exponent when the number is very large or very small. -/
def written (digits : Text) (exponent : Int) : Text :=
  if leastPositional ≤ exponent ∧ exponent < leastExponential then
    if exponent < 0 then
      text "0." ++ List.replicate ((-exponent).toNat - 1) '0' ++ digits
    else
      let whole := exponent.toNat + 1
      if digits.length ≤ whole then
        digits ++ List.replicate (whole - digits.length) '0' ++ text ".0"
      else digits.take whole ++ '.' :: digits.drop whole
  else
    match digits with
    | [] => []
    | d :: [] => d :: 'e' :: exponentText exponent
    | d :: more => d :: '.' :: more ++ 'e' :: exponentText exponent

/-- The text of a double. -/
def ofFloat (x : Float) : Text :=
  match Binary64.ofFloat x with
  | .nan => text "nan"
  | .infinite negative => (if negative then ['-'] else []) ++ text "inf"
  | .finite negative mantissa shift =>
      let (digits, exponent) :=
        if mantissa = 0 then (['0'], 0) else (shortest mantissa shift).scientific
      (if negative then ['-'] else []) ++ written digits exponent

/-! ## A fixed number of places -/

/-- The quotient rounded to the nearest natural number, a half going to the even neighbour. -/
def roundHalfEven (numerator denominator : Nat) : Nat :=
  let quotient := numerator / denominator
  let twice := 2 * (numerator % denominator)
  if twice < denominator then quotient
  else if denominator < twice then quotient + 1
  else if quotient % 2 = 0 then quotient else quotient + 1

/-- The text of a double with exactly `places` places behind the point. -/
def fixed (places : Nat) (x : Float) : Text :=
  match Binary64.ofFloat x with
  | .nan => text "nan"
  | .infinite negative => (if negative then ['-'] else []) ++ text "inf"
  | .finite negative mantissa shift =>
      let scaled := roundHalfEven (mantissa * Nat.pow 2 shift * Nat.pow 10 places)
        Binary64.unitsPerOne
      let digits := Text.ofNat scaled
      let padded := List.replicate (places + 1 - digits.length) '0' ++ digits
      let whole := padded.length - places
      (if negative then ['-'] else []) ++ padded.take whole ++ '.' :: padded.drop whole

end Decimal

end InverseTemplate
