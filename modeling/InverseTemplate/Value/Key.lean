/-
# Values as keys

Things are looked up and told apart by keys.  Almost any value can be one; arrays and maps that
may change cannot, so a list or a map is none, and a tuple is one if its items are.

Keys are the same more often than values are equal: a boolean is the same key as the number zero
or one.  And a key that is not a number is never the same as another one.

Keys can be listed in an order if any two of them compare: numbers and booleans do with one
another, texts do, and tuples do if the items do in which they first differ.
-/
import InverseTemplate.Value.Json

namespace InverseTemplate

namespace Value

mutual

/-- Can the value be a key? -/
def isKey : Value → Bool
  | .list _ => false
  | .map _ => false
  | .tuple items => areKeys items
  | .null => true
  | .bool _ => true
  | .int _ => true
  | .float _ => true
  | .text _ => true
  | .other _ => true

/-- Can each of the values be a key? -/
def areKeys : List Value → Bool
  | [] => true
  | v :: rest => isKey v && areKeys rest

end

/-- The number that a key amounts to. -/
def keyMagnitude? : Value → Option Magnitude
  | .bool b => some (.ofInt (if b then 1 else 0))
  | v => v.magnitude?

/-- Are the two keys one and the same number? -/
def sameNumber (v w : Value) : Bool :=
  match keyMagnitude? v with
  | none => false
  | some .nan => false
  | some m => keyMagnitude? w = some m

mutual

/-- Are two values the same key? -/
def sameKey : Value → Value → Bool
  | .null, w => w.kind = .null
  | .text s, w => match w with
      | .text t => s = t
      | _ => false
  | .other s, w => match w with
      | .other t => s = t
      | _ => false
  | .tuple xs, w => match w with
      | .tuple ys => sameKeys xs ys
      | _ => false
  | .bool b, w => sameNumber (.bool b) w
  | .int n, w => sameNumber (.int n) w
  | .float x, w => sameNumber (.float x) w
  | .list _, _ => false
  | .map _, _ => false

/-- Are two rows of values the same keys one by one? -/
def sameKeys : List Value → List Value → Bool
  | [], ys => ys.isEmpty
  | x :: xs, ys => match ys with
      | [] => false
      | y :: ys => sameKey x y && sameKeys xs ys

end

/-- The name that a key goes by: a text is its own name. -/
def keyName : Value → Text
  | .text t => t
  | key => Json.compact key

/-! ## Orders of keys -/

mutual

/-- Does one of two different keys come before the other? -/
def comparable : Value → Value → Bool
  | .text _, w => w.kind = .string
  | .tuple xs, w => match w with
      | .tuple ys => comparableItems xs ys
      | _ => false
  | .bool _, w => (keyMagnitude? w).isSome
  | .int _, w => (keyMagnitude? w).isSome
  | .float _, w => (keyMagnitude? w).isSome
  | .null, _ => false
  | .other _, _ => false
  | .list _, _ => false
  | .map _, _ => false

/-- Do two rows of items compare where they first differ?  A row that ends first comes first. -/
def comparableItems : List Value → List Value → Bool
  | [], _ => true
  | x :: xs, ys => match ys with
      | [] => true
      | y :: ys => if sameKey x y then comparableItems xs ys else comparable x y

end

/-- The keys of a list, each of them once. -/
def distinctKeys (keys : List Value) : List Value :=
  keys.foldl (fun known key => if known.any (sameKey key) then known else known ++ [key]) []

/-- Does each key compare with every later one? -/
def allComparable : List Value → Bool
  | [] => true
  | key :: rest => rest.all (comparable key) && allComparable rest

/-- Can the keys be listed in an order? -/
def areOrderable (keys : List Value) : Bool := allComparable (distinctKeys keys)

end Value

end InverseTemplate
