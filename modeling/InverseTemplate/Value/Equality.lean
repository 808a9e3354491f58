/-
# When two values are equal

Equality goes by kind: a boolean never equals a number, a list equals a tuple with equal items,
numbers are equal when their magnitudes are (so an integer can equal a double, NaN equals NaN
and zero equals minus zero), and maps are equal when they have the same keys, in whatever
order, with equal values.
-/
import InverseTemplate.Value.Basic

namespace InverseTemplate

namespace Value

mutual

/-- Are the two values equal? -/
def equal : Value → Value → Bool
  | .null, w => w.kind = .null
  | .bool a, w => match w with
      | .bool b => a = b
      | _ => false
  | .int n, w => w.magnitude? = some (.ofInt n)
  | .float x, w => w.magnitude? = some (.ofFloat x)
  | .text s, w => match w with
      | .text t => s = t
      | _ => false
  | .list xs, w => match w.items? with
      | some ys => equalItems xs ys
      | none => false
  | .tuple xs, w => match w.items? with
      | some ys => equalItems xs ys
      | none => false
  | .map xs, w => match w with
      | .map ys => (Entries.keys ys).all (Entries.contains xs) && equalEntries xs ys
      | _ => false
  | .other s, w => match w with
      | .other t => s = t
      | _ => false

/-- Are the two lists of items of one length and equal one by one? -/
def equalItems : List Value → List Value → Bool
  | [], ys => ys.isEmpty
  | x :: xs, ys => match ys with
      | [] => false
      | y :: ys => equal x y && equalItems xs ys

/-- Does the map hold an equal value for every one of the entries? -/
def equalEntries : List (Text × Value) → Entries Value → Bool
  | [], _ => true
  | (k, x) :: xs, ys =>
      (match Entries.get? ys k with
        | some y => equal x y
        | none => false) && equalEntries xs ys

end

end Value

end InverseTemplate
