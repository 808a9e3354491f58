/-
# Slots

A slot is a place in a template whose content comes from data: a braced expression or a
component tag.  A braced expression that is a plain dotted path can be recovered from rendered
text; conditionals and loops are located but not recovered; a component is recovered by an
extractor that knows its markup.
-/
import InverseTemplate.Entries
import InverseTemplate.Markdown.Span
import InverseTemplate.Text.WordChar

namespace InverseTemplate

/-- The kinds of slots. -/
inductive SlotKind where
  | expression
  | conditional
  | loop
  | component
deriving DecidableEq

namespace SlotKind

/-- The word for a kind of slot. -/
def word : SlotKind → Text
  | .expression => text "expression"
  | .conditional => text "conditional"
  | .loop => text "loop"
  | .component => text "component"

/-- All kinds of slots. -/
def all : List SlotKind := [.expression, .conditional, .loop, .component]

/-- The kind of slot that a word stands for. -/
def ofWord? (w : Text) : Option SlotKind := all.find? (·.word = w)

theorem ofWord?_word (kind : SlotKind) : ofWord? kind.word = some kind := by
  cases kind <;> decide +kernel

end SlotKind

/-! ## What the braces hold -/

namespace Expression

/-- A character that a segment of a path may begin with. -/
def isSegmentStart (c : Char) : Bool := Text.isAsciiLetter c || c = '_' || c = '$'

/-- A character inside a segment of a path. -/
def isSegmentChar (c : Char) : Bool := Text.isWordChar c || c = '$'

/-- A segment of a path: a letter, low line or dollar sign, then word characters and dollar
signs. -/
def isSegment : Text → Bool
  | [] => false
  | c :: r => isSegmentStart c && r.all isSegmentChar

/-- A text without the one line feed at its end, if there is one. -/
def withoutLineFeed (t : Text) : Text :=
  if t.getLast? = some '\n' then t.dropLast else t

/-- Is the expression a plain dotted path?  One line feed behind it does not matter. -/
def isPath (expression : Text) : Bool :=
  (List.splitOn '.' (withoutLineFeed expression)).all isSegment

/-- The calls that make a loop. -/
def loopMarkers : List Text := [text ".map(", text ".filter(", text ".forEach("]

/-- The kind of slot that an expression makes: a question mark and a colon make a conditional,
then the call of a loop makes a loop, then a plain path is an expression, and anything else has
to be resolved like a conditional. -/
def kind (expression : Text) : SlotKind :=
  if expression.contains '?' && expression.contains ':' then .conditional
  else if loopMarkers.any (Text.includes · expression) then .loop
  else if isPath expression then .expression
  else .conditional

/-- Is the trimmed content of braces a comment? -/
def isComment (expression : Text) : Bool :=
  4 ≤ expression.length && ['/', '*'].isPrefixOf expression &&
    ['*', '/'].isSuffixOf expression

end Expression

/-! ## Slots -/

/-- What a slot stands for. -/
inductive SlotContent where
  /-- A plain path. -/
  | expression (path : Text)
  /-- A conditional, or any other expression that has to be resolved. -/
  | conditional (source : Text)
  /-- A call that repeats its content. -/
  | loop (source : Text)
  /-- A component: its name, the props bound to expressions in braces, and the template text
  between its tags if it is not self-closing. -/
  | component (name : Text) (props : Entries Text) (children : Option Text)
deriving DecidableEq

/-- The content of a braced expression. -/
def SlotContent.ofExpression (expression : Text) : SlotContent :=
  match Expression.kind expression with
  | .expression => .expression expression
  | .loop => .loop expression
  | .conditional | .component => .conditional expression

/-- A slot, its source in the template and where it stands. -/
structure Slot where
  content : SlotContent
  raw : Text
  start : Nat
  stop : Nat
deriving DecidableEq

namespace Slot

/-- The kind of a slot. -/
def kind (s : Slot) : SlotKind :=
  match s.content with
  | .expression _ => .expression
  | .conditional _ => .conditional
  | .loop _ => .loop
  | .component .. => .component

/-- The trimmed content of the braces. -/
def path? (s : Slot) : Option Text :=
  match s.content with
  | .expression path => some path
  | .conditional source => some source
  | .loop source => some source
  | .component .. => none

/-- The name of a component. -/
def name? (s : Slot) : Option Text :=
  match s.content with
  | .component name _ _ => some name
  | _ => none

/-- The props of a component that are bound to expressions. -/
def props (s : Slot) : Entries Text :=
  match s.content with
  | .component _ props _ => props
  | _ => []

/-- The template text inside a block component. -/
def children? (s : Slot) : Option Text :=
  match s.content with
  | .component _ _ children => children
  | _ => none

/-- The name under which a slot is reported. -/
def label (s : Slot) : Text :=
  match s.content with
  | .expression path => path
  | .conditional source => source
  | .loop source => source
  | .component name _ _ => '<' :: name ++ text " />"

/-- Can the value be recovered from the rendered text alone? -/
def isExtractable (s : Slot) : Bool := s.kind = .expression

end Slot

end InverseTemplate
