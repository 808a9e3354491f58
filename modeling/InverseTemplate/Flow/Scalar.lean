/-
# Plain scalars

A scalar that stands without quotes is what its spelling says: null, a boolean, an integer in
one of several bases, a double, or, if it is none of these, a text.  A decimal is a double only
with a point, and with a power of ten only if that is signed; `1e5` is a text.

Low lines may stand among the digits of a number and mean nothing.
-/
import InverseTemplate.Number.Numeral

namespace InverseTemplate

namespace Flow

/-! ## Words -/

/-- The spellings of null. -/
def nullWords : List Text := ["", "~", "null", "Null", "NULL"].map text

/-- The spellings of the boolean that holds. -/
def trueWords : List Text :=
  ["yes", "Yes", "YES", "true", "True", "TRUE", "on", "On", "ON"].map text

/-- The spellings of the boolean that does not hold. -/
def falseWords : List Text :=
  ["no", "No", "NO", "false", "False", "FALSE", "off", "Off", "OFF"].map text

/-- The spellings of the infinite double, without its sign. -/
def infinityWords : List Text := [".inf", ".Inf", ".INF"].map text

/-- The spellings of the double that is not a number. -/
def nanWords : List Text := [".nan", ".NaN", ".NAN"].map text

/-! ## Numbers -/

/-- Is the character a digit of the base, or a low line among its digits? -/
def isDigitOf (base : Nat) (c : Char) : Bool :=
  c = '_' || (digitValue? c).any fun d => d < base

/-- The number that the digits of a base stand for. -/
def natOf (base : Nat) (digits : Text) : Nat :=
  (digits.filterMap digitValue?).foldl (fun n d => base * n + d) 0

/-- A number that is a nonempty run of digits of a base. -/
def natIn? (base : Nat) (digits : Text) : Option Nat :=
  if digits ≠ [] ∧ digits.all (isDigitOf base) then some (natOf base digits) else none

/-- A part of a number in sixties behind the first: one digit, or two that stay below sixty. -/
def sixtieth? : Text → Option Nat
  | [c] => if Text.isAsciiDigit c then digitValue? c else none
  | [c, d] =>
      if '0' ≤ c ∧ c ≤ '5' ∧ Text.isAsciiDigit d then some (natOfDigits [c, d]) else none
  | _ => none

/-- An integer without its sign. -/
def nat? (t : Text) : Option Nat :=
  match t with
  | '0' :: 'b' :: digits => natIn? 2 digits
  | '0' :: 'x' :: digits => natIn? 16 digits
  | ['0'] => some 0
  | '0' :: digits => natIn? 8 digits
  | c :: _ =>
      if Text.isAsciiDigit c then
        match List.splitOn ':' t with
        | [] => none
        | whole :: parts => do
            let n ← natIn? 10 whole
            return (← parts.mapM sixtieth?).foldl (fun n part => 60 * n + part) n
      else none
  | [] => none

/-- The power of ten at the end of a decimal, which has to be signed, or nothing at all. -/
def power? : Text → Option (Option Int)
  | [] => some none
  | e :: sign :: digits =>
      let power : Int := natOfDigits digits
      if (e = 'e' ∨ e = 'E') ∧ digits ≠ [] ∧ digits.all Text.isAsciiDigit then
        if sign = '+' then some (some power)
        else if sign = '-' then some (some (-power))
        else none
      else none
  | _ => none

/-- A decimal with a point, without its sign; it begins with a digit, or with the point. -/
def decimal? (negative : Bool) (t : Text) : Option Numeral :=
  let whole := t.takeWhile (isDigitOf 10)
  match t.dropWhile (isDigitOf 10) with
  | '.' :: r => do
      let places := r.takeWhile (isDigitOf 10)
      let power ← power? (r.dropWhile (isDigitOf 10))
      let leading := if whole = [] then places else whole
      if leading.head?.any Text.isAsciiDigit then
        let digits (t : Text) : Text := t.filter Text.isAsciiDigit
        return ⟨negative, digits whole, some (digits places), power⟩
      else none
  | _ => none

/-- A number. -/
def number? (t : Text) : Option Value :=
  let (signed, negative, unsigned) : Bool × Bool × Text := match t with
    | '-' :: r => (true, true, r)
    | '+' :: r => (true, false, r)
    | r => (false, false, r)
  if infinityWords.contains unsigned then
    some (.float (if negative then -1.0 / 0.0 else 1.0 / 0.0))
  else if nanWords.contains t then some (.float (0.0 / 0.0))
  else
    match nat? unsigned with
    | some n => some (.int (if negative then -(n : Int) else n))
    | none =>
        if signed && unsigned.head? = some '.' then none
        else (decimal? negative unsigned).map fun numeral => .float numeral.toFloat

/-! ## Scalars -/

/-- The value of a plain scalar.  The two signs for merging and for a default value stand for
nothing by themselves. -/
def plain? (t : Text) : Option Value :=
  if t = text "<<" ∨ t = text "=" then none
  else if nullWords.contains t then some .null
  else if trueWords.contains t then some (.bool true)
  else if falseWords.contains t then some (.bool false)
  else some ((number? t).getD (.text t))

end Flow

end InverseTemplate
