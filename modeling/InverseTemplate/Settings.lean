/-
# Settings

The choices that hold for a whole run: whether leftovers are an error, whether the pattern that
was looked for is traced, where component props land, which lines begin a section, how arrays are
merged, from which confidence on assistance is not asked for, and how debug groups are named.
-/
import InverseTemplate.Anchor.Match
import InverseTemplate.Failure
import InverseTemplate.Text.Blank
import InverseTemplate.Text.LowerCase
import InverseTemplate.Value.Printed
import InverseTemplate.Value.Reader

namespace InverseTemplate

/-- How two arrays found at one path are combined. -/
inductive ArrayMerge where
  /-- The extracted array wins. -/
  | replace
  /-- The items of the record, then the extracted ones. -/
  | append
  /-- The extracted items, then those of the record. -/
  | prepend
deriving DecidableEq

/-- Where the props that a component yields land in the extracted data. -/
inductive Placement where
  /-- Each prop at the path that the template binds it to. -/
  | bindings
  /-- All props merged into the top level. -/
  | root
  /-- All props under the component's name. -/
  | component
deriving DecidableEq

namespace ArrayMerge

/-- The word for a policy. -/
def word : ArrayMerge → Text
  | .replace => text "replace"
  | .append => text "append"
  | .prepend => text "prepend"

/-- All policies. -/
def all : List ArrayMerge := [.replace, .append, .prepend]

/-- The policy that a word stands for. -/
def ofWord? (w : Text) : Option ArrayMerge := all.find? (·.word = w)

/-- Reads a policy from an option. -/
def read : Value → Except Failure ArrayMerge
  | .text w => match ofWord? w with
      | some policy => .ok policy
      | none => .error (.unknownWord (Text.quoted w) .arrayMerge)
  | v => .error (.unknownWord v.literal .arrayMerge)

theorem ofWord?_word (policy : ArrayMerge) : ofWord? policy.word = some policy := by
  cases policy <;> decide +kernel

end ArrayMerge

namespace Placement

/-- The word for a placement. -/
def word : Placement → Text
  | .bindings => text "bindings"
  | .root => text "root"
  | .component => text "component"

/-- All placements. -/
def all : List Placement := [.bindings, .root, .component]

/-- The placement that a word stands for. -/
def ofWord? (w : Text) : Option Placement := all.find? (·.word = w)

/-- Reads a placement from an option. -/
def read : Value → Except Failure Placement
  | .text w => match ofWord? w with
      | some placement => .ok placement
      | none => .error (.unknownWord (Text.quoted w) .componentPlacement)
  | v => .error (.unknownWord v.literal .componentPlacement)

theorem ofWord?_word (placement : Placement) : ofWord? placement.word = some placement := by
  cases placement <;> decide +kernel

end Placement

/-- The settings of a run. -/
structure Settings where
  /-- Are leftovers an error? -/
  strict : Bool := false
  /-- Is the pattern traced? -/
  debug : Bool := false
  placement : Placement := .bindings
  /-- What the pattern for lines that begin a section takes at a place of a text.  A pattern may
  look at the whole text around the place. -/
  sectionBreak : Text → Matcher := fun _ => headingLine
  arrayMerge : ArrayMerge := .replace
  /-- The confidence from which on assistance is not asked for, between 0 and 1. -/
  threshold : Float := 1.0
  /-- What the debug groups of slots other than components begin with. -/
  groupLead : Text := text "slot_"
  /-- What the debug groups of components begin with. -/
  componentGroupLead : Text := text "component_"

namespace Settings

/-- The spellings of a yes. -/
def yesWords : List Text := ["1", "on", "t", "true", "y", "yes"].map text

/-- The spellings of a no. -/
def noWords : List Text := ["0", "off", "f", "false", "n", "no"].map text

/-- A yes or a no: a boolean, the numbers one and zero, or one of its spellings in letters of any
case. -/
def switch? : Value → Option Bool
  | .bool b => some b
  | .text t =>
      if yesWords.contains (Text.lower t) then some true
      else if noWords.contains (Text.lower t) then some false
      else none
  | v =>
      if v.magnitude? = some (.ofInt 1) then some true
      else if v.magnitude? = some (.ofInt 0) then some false
      else none

/-- A number, or its numeral in a text. -/
def number? : Value → Option Float
  | .int n => some (Float.ofInt n)
  | .float x => some x
  | .bool b => some (if b then 1 else 0)
  | .text t => (Json.numeral? (Text.strip t)).map Numeral.toFloat
  | _ => none

/-- A setting that has to have a value. -/
def required {α : Type} (value : Option α) : Except Failure α :=
  match value with
  | some a => .ok a
  | none => .error .invalidSetting

/-- The settings with another threshold, which must not lie outside of 0 and 1. -/
def withThreshold (settings : Settings) (x : Float) : Except Failure Settings :=
  if x < 0.0 ∨ 1.0 < x then .error .invalidSetting else .ok { settings with threshold := x }

/-- The placement or policy that a setting names, which has to be a known word. -/
def known {α : Type} (read : Except Failure α) : Except Failure α :=
  match read with
  | .ok a => .ok a
  | .error _ => .error .invalidSetting

/-- A text, which a setting has to be. -/
def text? : Value → Option Text
  | .text t => some t
  | _ => none

/-- The settings with another value under a name.  The pattern for section breaks has no value that
could be written down here: it is given as what it takes. -/
def write (settings : Settings) (name : Text) (v : Value) : Except Failure Settings := do
  if name = text "strict_mode" then return { settings with strict := ← required (switch? v) }
  else if name = text "debug_mode" then return { settings with debug := ← required (switch? v) }
  else if name = text "component_placement" then
    return { settings with placement := ← known (Placement.read v) }
  else if name = text "array_merge" then
    return { settings with arrayMerge := ← known (ArrayMerge.read v) }
  else if name = text "ai_confidence_threshold" then
    settings.withThreshold (← required (number? v))
  else if name = text "group_prefix" then
    return { settings with groupLead := ← required (text? v) }
  else if name = text "component_group_prefix" then
    return { settings with componentGroupLead := ← required (text? v) }
  else .error .invalidSetting

end Settings

end InverseTemplate
