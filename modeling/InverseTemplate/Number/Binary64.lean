/-
# What a double stands for

Every finite double is a whole number of units of `2 ^ (-1074)`, the smallest positive one.
Taking a double apart into its sign and its count of units turns every question that this
library asks of one (which decimal reads back, how it rounds to two places, whether it equals
an integer) into integer arithmetic.

`Magnitude` forgets what two spellings of one value differ in, the sign of zero included, and
keeps NaN as one value of its own.  Equality of numbers is equality of magnitudes, so it is an
equivalence by construction.
-/
import InverseTemplate.Text.Basic

namespace InverseTemplate

/-- A double taken apart. -/
inductive Binary64 where
  | nan
  | infinite (negative : Bool)
  /-- `mantissa * 2 ^ shift` units of `2 ^ (-1074)`. -/
  | finite (negative : Bool) (mantissa shift : Nat)
deriving DecidableEq

namespace Binary64

/-- The number of units of `2 ^ (-1074)` in one. -/
def unitsPerOne : Nat := Nat.pow 2 1074

/-- The sign, the mantissa with its hidden bit, and the exponent of a double. -/
def ofFloat (x : Float) : Binary64 :=
  let bits := x.toBits.toNat
  let negative := bits / Nat.pow 2 63 = 1
  let biased := bits / Nat.pow 2 52 % Nat.pow 2 11
  let fraction := bits % Nat.pow 2 52
  if biased = 2047 then if fraction = 0 then .infinite negative else .nan
  else if biased = 0 then .finite negative fraction 0
  else .finite negative (fraction + Nat.pow 2 52) (biased - 1)

end Binary64

/-- The value of a number, apart from how it is written. -/
inductive Magnitude where
  | nan
  | infinite (negative : Bool)
  /-- So many units of `2 ^ (-1074)`. -/
  | finite (units : Int)
deriving DecidableEq

namespace Magnitude

/-- The value of an integer. -/
def ofInt (n : Int) : Magnitude := .finite (n * Binary64.unitsPerOne)

/-- The value of a double. -/
def ofFloat (x : Float) : Magnitude :=
  match Binary64.ofFloat x with
  | .nan => .nan
  | .infinite negative => .infinite negative
  | .finite negative mantissa shift =>
      let units : Int := (mantissa * Nat.pow 2 shift : Nat)
      .finite (if negative then -units else units)

end Magnitude

end InverseTemplate
