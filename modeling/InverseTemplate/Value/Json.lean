/-
# Values as JSON

Two layouts are written: the compact one puts a whole value on one line without any blank, and
the indented one gives every item and every entry a line of its own.  Both write texts as they
are apart from quotes, backslashes and control characters, keep the order of entries, and write
a tuple as an array.  The doubles that JSON has no notation for are written `NaN`, `Infinity`
and `-Infinity`.

Opaque values have no notation at all, and integers are only written up to a number of digits.
Such values are shown all the same; `isWritable` tells them apart.
-/
import InverseTemplate.Number.Decimal
import InverseTemplate.Text.Printable
import InverseTemplate.Value.Basic

namespace InverseTemplate

namespace Json

/-- One character of a text between double quotes. -/
def escapeChar (c : Char) : Text :=
  if c = '"' then ['\\', '"']
  else if c = '\\' then ['\\', '\\']
  else if c = '\n' then ['\\', 'n']
  else if c = '\r' then ['\\', 'r']
  else if c = '\t' then ['\\', 't']
  else if c = Char.ofNat 8 then ['\\', 'b']
  else if c = Char.ofNat 12 then ['\\', 'f']
  else if c.toNat < 0x20 then '\\' :: 'u' :: Text.hexDigits 4 c.toNat
  else [c]

/-- A text as a JSON string. -/
def string (t : Text) : Text := '"' :: t.flatMap escapeChar ++ ['"']

/-- A double as a JSON number. -/
def number (x : Float) : Text :=
  match Binary64.ofFloat x with
  | .nan => text "NaN"
  | .infinite negative => (if negative then ['-'] else []) ++ text "Infinity"
  | .finite .. => Decimal.ofFloat x

/-! ## What can be written -/

/-- The number of digits up to which an integer is written out. -/
def maxDigits : Nat := 4300

mutual

/-- Is there a notation for everything in the value? -/
def isWritable : Value → Bool
  | .null => true
  | .bool _ => true
  | .int n => n.natAbs < 10 ^ maxDigits
  | .float _ => true
  | .text _ => true
  | .list items => areWritable items
  | .tuple items => areWritable items
  | .map entries => entriesAreWritable entries
  | .other _ => false

/-- Is there a notation for everything in the items? -/
def areWritable : List Value → Bool
  | [] => true
  | item :: items => isWritable item && areWritable items

/-- Is there a notation for everything in the values of the entries? -/
def entriesAreWritable : List (Text × Value) → Bool
  | [] => true
  | (_, v) :: entries => isWritable v && entriesAreWritable entries

end

/-! ## One line -/

mutual

/-- A value on one line. -/
def compact : Value → Text
  | .null => text "null"
  | .bool b => if b then text "true" else text "false"
  | .int n => Text.ofInt n
  | .float x => number x
  | .text t => string t
  | .list items => '[' :: compactItems items ++ [']']
  | .tuple items => '[' :: compactItems items ++ [']']
  | .map entries => '\x7b' :: compactEntries entries ++ ['\x7d']
  | .other tag => string tag

/-- The items one after another, with commas. -/
def compactItems : List Value → Text
  | [] => []
  | [item] => compact item
  | item :: items => compact item ++ ',' :: compactItems items

/-- The entries one after another, with commas. -/
def compactEntries : List (Text × Value) → Text
  | [] => []
  | [(k, v)] => string k ++ ':' :: compact v
  | (k, v) :: entries => string k ++ ':' :: compact v ++ ',' :: compactEntries entries

end

/-! ## One line per item -/

/-- A new line, indented for the given depth. -/
def newLine (depth : Nat) : Text := '\n' :: List.replicate (2 * depth) ' '

mutual

/-- A value that stands at the given depth; nothing is written on one line but what is empty. -/
def indented (depth : Nat) : Value → Text
  | .null => text "null"
  | .bool b => if b then text "true" else text "false"
  | .int n => Text.ofInt n
  | .float x => number x
  | .text t => string t
  | .list [] => ['[', ']']
  | .list (item :: items) =>
      '[' :: indentedItems (depth + 1) (item :: items) ++ newLine depth ++ [']']
  | .tuple [] => ['[', ']']
  | .tuple (item :: items) =>
      '[' :: indentedItems (depth + 1) (item :: items) ++ newLine depth ++ [']']
  | .map [] => ['\x7b', '\x7d']
  | .map (entry :: entries) =>
      '\x7b' :: indentedEntries (depth + 1) (entry :: entries) ++ newLine depth ++ ['\x7d']
  | .other tag => string tag

/-- The items at the given depth, each on a line of its own. -/
def indentedItems (depth : Nat) : List Value → Text
  | [] => []
  | [item] => newLine depth ++ indented depth item
  | item :: items => newLine depth ++ indented depth item ++ ',' :: indentedItems depth items

/-- The entries at the given depth, each on a line of its own. -/
def indentedEntries (depth : Nat) : List (Text × Value) → Text
  | [] => []
  | [(k, v)] => newLine depth ++ string k ++ ':' :: ' ' :: indented depth v
  | (k, v) :: entries =>
      newLine depth ++ string k ++ ':' :: ' ' :: indented depth v ++
        ',' :: indentedEntries depth entries

end

end Json

end InverseTemplate
