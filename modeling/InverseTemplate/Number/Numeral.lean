/-
# Decimal numerals

A numeral is what is written: a sign, digits, perhaps a fraction behind a point, perhaps a power
of ten.  With either of the latter it stands for the double that is nearest, and without them
for an integer of whatever size.
-/
import InverseTemplate.Text.WordChar
import InverseTemplate.Value.Basic

namespace InverseTemplate

/-- The number that a character is as a digit of some base up to sixteen. -/
def digitValue? (c : Char) : Option Nat :=
  if '0' ≤ c ∧ c ≤ '9' then some (c.toNat - '0'.toNat)
  else if 'a' ≤ c ∧ c ≤ 'f' then some (c.toNat - 'a'.toNat + 10)
  else if 'A' ≤ c ∧ c ≤ 'F' then some (c.toNat - 'A'.toNat + 10)
  else none

/-- The number that a run of decimal digits stands for. -/
def natOfDigits (digits : Text) : Nat :=
  digits.foldl (fun n c => 10 * n + (c.toNat - '0'.toNat)) 0

/-- A numeral taken apart. -/
structure Numeral where
  negative : Bool
  whole : Text
  /-- The digits behind the point, if there is a point. -/
  fraction : Option Text
  /-- The power of ten, if one is given. -/
  power : Option Int

namespace Numeral

/-- A power of ten that moves a number out of the range of doubles, up or down. -/
def farPower : Int := 400

/-- The power of ten that a whole number of so many digits is scaled by; beyond the range of
doubles it does not matter how far. -/
def bounded (digits : Nat) (scale : Int) : Int :=
  max (-(farPower + digits)) (min scale farPower)

/-- The double nearest to a numeral. -/
def toFloat (n : Numeral) : Float :=
  let places := n.fraction.getD []
  let digits := n.whole ++ places
  let scale := bounded digits.length (n.power.getD 0 - (places.length : Int))
  let x := Float.ofScientific (natOfDigits digits) (scale < 0) scale.natAbs
  if n.negative then -x else x

/-- The integer that a numeral's whole part stands for. -/
def toInt (n : Numeral) : Int :=
  let whole : Int := natOfDigits n.whole
  if n.negative then -whole else whole

/-- The value of a numeral. -/
def value (n : Numeral) : Value :=
  if n.fraction.isSome || n.power.isSome then .float n.toFloat else .int n.toInt

theorem bounded_eq {digits : Nat} {scale : Int} (h₁ : -(farPower + digits) ≤ scale)
    (h₂ : scale ≤ farPower) : bounded digits scale = scale := by
  unfold bounded
  omega

end Numeral

end InverseTemplate
