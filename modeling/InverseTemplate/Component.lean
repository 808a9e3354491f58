/-
# Components and their extractors

Markup that is richer than one value is read back by an extractor that knows it.  An extractor
may look at the content first and decline it, it may find nothing in it, and, being caller code,
it may fail; a failure is handed on as it is.

A component is an extractor's function together with the one that it undoes: extracting what
was rendered from props gives the props again.
-/
import InverseTemplate.Failure
import InverseTemplate.Value.Equality

namespace InverseTemplate

/-- Reads the markup of one component. -/
structure Extractor where
  /-- Is the content worth looking at? -/
  recognizes : Text → Bool := fun _ => true
  /-- The props that the content was rendered from, if it is markup of the component. -/
  extract : Text → Except Failure (Option Value)

/-- The extractors by the names of their components. -/
abbrev Extractors : Type := Entries Extractor

/-- The props that an extractor finds in a content. -/
def Extractor.props (extractor : Extractor) (content : Text) : Except Failure (Option Value) :=
  if extractor.recognizes content then extractor.extract content else .ok none

/-- A way to render props and its inverse. -/
structure Component where
  render : Value → Except Failure Text
  extract : Text → Except Failure (Option Value)

namespace Component

/-- The extractor half of a component. -/
def extractor (component : Component) : Extractor := { extract := component.extract }

/-- What is extracted from rendered props; null, if nothing is. -/
def roundTrip (component : Component) (props : Value) : Except Failure Value := do
  let content ← component.render props
  let extracted ← component.extract content
  return extracted.getD .null

/-- Does rendering and extracting give the same props again? -/
def roundTrips (component : Component) (props : Value) : Except Failure Bool := do
  return Value.equal (← component.roundTrip props) props

end Component

end InverseTemplate
