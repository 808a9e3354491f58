/-
# Values

Records, extracted data and component props are trees of plain values: null, booleans,
integers, doubles, texts, arrays and maps with text keys.  Arrays come in two spellings, lists
and tuples, which count as the same kind.  A value that caller code hands in and this library
knows nothing about is `other`; it is carried along under its tag, which stands for all that it is
equal to.

Integers and doubles are kept apart, because each is written back the way it came, but both are
numbers and equal when their magnitudes are.
-/
import InverseTemplate.Entries
import InverseTemplate.Number.Binary64

namespace InverseTemplate

/-- A plain value. -/
inductive Value where
  | null
  | bool (b : Bool)
  | int (n : Int)
  | float (x : Float)
  | text (t : Text)
  | list (items : List Value)
  | tuple (items : List Value)
  | map (entries : List (Text × Value))
  | other (tag : Text)
deriving Inhabited

/-- What sort of value it is. -/
inductive Kind where
  | null
  | bool
  | number
  | string
  | array
  | map
  | other
deriving DecidableEq

/-- The word for a kind. -/
def Kind.word : Kind → Text
  | .null => InverseTemplate.text "null"
  | .bool => InverseTemplate.text "bool"
  | .number => InverseTemplate.text "number"
  | .string => InverseTemplate.text "string"
  | .array => InverseTemplate.text "array"
  | .map => InverseTemplate.text "map"
  | .other => InverseTemplate.text "other"

namespace Value

/-- The kind of a value.  A boolean is not a number. -/
def kind : Value → Kind
  | .null => .null
  | .bool _ => .bool
  | .int _ => .number
  | .float _ => .number
  | .text _ => .string
  | .list _ => .array
  | .tuple _ => .array
  | .map _ => .map
  | .other _ => .other

/-- The items of an array. -/
def items? : Value → Option (List Value)
  | .list items => some items
  | .tuple items => some items
  | _ => none

/-- The entries of a map. -/
def entries? : Value → Option (Entries Value)
  | .map entries => some entries
  | _ => none

/-- What one comes across when going through a value: the items of an array, the characters of
a text, the keys of a map. -/
def parts? : Value → Option (List Value)
  | .list items => some items
  | .tuple items => some items
  | .text t => some (t.map fun c => .text [c])
  | .map entries => some ((Entries.keys entries).map .text)
  | _ => none

/-- Is the value a map? -/
def isMap (v : Value) : Bool := v.entries?.isSome

/-- The magnitude of a number. -/
def magnitude? : Value → Option Magnitude
  | .int n => some (.ofInt n)
  | .float x => some (.ofFloat x)
  | _ => none

/-- Does a condition hold of the value taken as a yes or a no?  Null, zero and everything empty
count as a no. -/
def isTruthy : Value → Bool
  | .null => false
  | .bool b => b
  | .int n => n ≠ 0
  | .float x => Magnitude.ofFloat x ≠ .finite 0
  | .text t => !t.isEmpty
  | .list items => !items.isEmpty
  | .tuple items => !items.isEmpty
  | .map entries => !entries.isEmpty
  | .other _ => true

/-! ## One spelling for arrays -/

mutual

/-- The value with every tuple, at any depth, turned into a list. -/
def plain : Value → Value
  | .list items => .list (plainItems items)
  | .tuple items => .list (plainItems items)
  | .map entries => .map (plainEntries entries)
  | .null => .null
  | .bool b => .bool b
  | .int n => .int n
  | .float x => .float x
  | .text t => .text t
  | .other tag => .other tag

/-- The items, each with one spelling for arrays. -/
def plainItems : List Value → List Value
  | [] => []
  | v :: rest => plain v :: plainItems rest

/-- The entries, each value with one spelling for arrays. -/
def plainEntries : List (Text × Value) → List (Text × Value)
  | [] => []
  | (k, v) :: rest => (k, plain v) :: plainEntries rest

end

/-! ## Deep copies -/

mutual

/-- A deep copy, which spells arrays as lists.  What an opaque value is copied to is up to caller
code: an object that is compared by its identity has a copy that it does not equal. -/
def clone (copy : Text → Value) : Value → Value
  | .list items => .list (cloneItems copy items)
  | .tuple items => .list (cloneItems copy items)
  | .map entries => .map (cloneEntries copy entries)
  | .null => .null
  | .bool b => .bool b
  | .int n => .int n
  | .float x => .float x
  | .text t => .text t
  | .other tag => copy tag

/-- The items, each of them copied. -/
def cloneItems (copy : Text → Value) : List Value → List Value
  | [] => []
  | v :: rest => clone copy v :: cloneItems copy rest

/-- The entries, each value copied. -/
def cloneEntries (copy : Text → Value) : List (Text × Value) → List (Text × Value)
  | [] => []
  | (k, v) :: rest => (k, clone copy v) :: cloneEntries copy rest

end

mutual

/-- The tags of the opaque values in a value, at any depth. -/
def tags : Value → List Text
  | .list items => tagsOfItems items
  | .tuple items => tagsOfItems items
  | .map entries => tagsOfEntries entries
  | .null => []
  | .bool _ => []
  | .int _ => []
  | .float _ => []
  | .text _ => []
  | .other tag => [tag]

/-- The tags of the opaque values in the items. -/
def tagsOfItems : List Value → List Text
  | [] => []
  | v :: rest => tags v ++ tagsOfItems rest

/-- The tags of the opaque values in the entries. -/
def tagsOfEntries : List (Text × Value) → List Text
  | [] => []
  | (_, v) :: rest => tags v ++ tagsOfEntries rest

end

/-! ## Maps without repeated keys -/

mutual

/-- No map inside the value, itself included, holds a key twice. -/
def WellFormed : Value → Prop
  | .list items => WellFormedItems items
  | .tuple items => WellFormedItems items
  | .map entries => Entries.NodupKeys entries ∧ WellFormedEntries entries
  | .null => True
  | .bool _ => True
  | .int _ => True
  | .float _ => True
  | .text _ => True
  | .other _ => True

/-- Every item is well formed. -/
def WellFormedItems : List Value → Prop
  | [] => True
  | v :: rest => WellFormed v ∧ WellFormedItems rest

/-- Every entry's value is well formed. -/
def WellFormedEntries : List (Text × Value) → Prop
  | [] => True
  | (_, v) :: rest => WellFormed v ∧ WellFormedEntries rest

end

theorem plainItems_eq_map (items : List Value) : plainItems items = items.map plain := by
  induction items with
  | nil => rfl
  | cons v rest ih => simp [plainItems, ih]

theorem plainEntries_eq_map (entries : List (Text × Value)) :
    plainEntries entries = entries.map fun entry => (entry.1, plain entry.2) := by
  induction entries with
  | nil => rfl
  | cons entry rest ih => simp [plainEntries, ih]

end Value

end InverseTemplate
