/-
# Validation of templates

A template is suitable for plain extraction when every slot is a plain path.  Validation lists
the paths that can be recovered, the labels of the slots that need help, and for each of these
a warning that says which help it needs.
-/
import InverseTemplate.Template.Split

namespace InverseTemplate

/-- What is known of a template without rendering anything. -/
structure Validation where
  /-- The paths that can be recovered from rendered text. -/
  extractable : List Text
  /-- The labels of the slots that need an extractor or assistance. -/
  needsAssistance : List Text
  warnings : List Text
  slots : List Slot
deriving DecidableEq

/-- The help that a slot needs, if it needs any. -/
def Slot.warning? (slot : Slot) : Option Text :=
  match slot.content with
  | .expression _ => none
  | .component .. =>
      some (text "Component " ++ slot.label ++ text " requires a custom extractor")
  | .conditional source =>
      some (text "Conditional expression \"" ++ source ++ text "\" requires AI extraction")
  | .loop source =>
      some (text "Loop expression \"" ++ source ++ text "\" requires AI extraction")

namespace Validation

/-- The validation of a template with the given slots. -/
def ofSlots (slots : List Slot) : Validation :=
  { extractable := (slots.filter Slot.isExtractable).map Slot.label
    needsAssistance := (slots.filter fun slot => !slot.isExtractable).map Slot.label
    warnings := slots.filterMap Slot.warning?
    slots }

/-- The validation of a template's text. -/
def ofText (source : Text) : Validation := ofSlots (Template.ofText source).slots

/-- Can every slot be recovered from rendered text? -/
def isValid (v : Validation) : Bool := v.needsAssistance.isEmpty

end Validation

end InverseTemplate
