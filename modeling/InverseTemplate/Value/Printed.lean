/-
# Values in running text

Where a value is put into a line of prose (the name of a list entry, the target of a link, the
plain cell of a table) a text stands for itself, and anything else is printed in the notation of
literals: `None`, `True`, `False`, numbers by their digits, arrays in brackets or parentheses,
maps in braces.  Inside an array or a map texts are quoted.
-/
import InverseTemplate.Number.Decimal
import InverseTemplate.Text.Printable
import InverseTemplate.Value.Basic

namespace InverseTemplate

namespace Value

mutual

/-- The notation of a value as a literal. -/
def literal : Value → Text
  | .null => InverseTemplate.text "None"
  | .bool b => if b then InverseTemplate.text "True" else InverseTemplate.text "False"
  | .int n => Text.ofInt n
  | .float x => Decimal.ofFloat x
  | .text t => Text.quoted t
  | .list items => '[' :: literalItems items ++ [']']
  | .tuple [item] => '(' :: literal item ++ [',', ')']
  | .tuple items => '(' :: literalItems items ++ [')']
  | .map entries => '\x7b' :: literalEntries entries ++ ['\x7d']
  | .other tag => tag

/-- The items one after another, with commas. -/
def literalItems : List Value → Text
  | [] => []
  | [item] => literal item
  | item :: items => literal item ++ [',', ' '] ++ literalItems items

/-- The entries one after another, with commas. -/
def literalEntries : List (Text × Value) → Text
  | [] => []
  | [(k, v)] => Text.quoted k ++ [':', ' '] ++ literal v
  | (k, v) :: entries =>
      Text.quoted k ++ [':', ' '] ++ literal v ++ [',', ' '] ++ literalEntries entries

end

/-- A value in running text. -/
def printed : Value → Text
  | .text t => t
  | v => literal v

end Value

end InverseTemplate
