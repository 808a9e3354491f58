/-
# The trace of a run

What happened on the way to a result can be shown to the user.  Every event has a level, and a
run shows the events up to the level it was asked for: progress is level 1, summaries are
level 2, and every step of the matching is level 3.
-/
import InverseTemplate.Number.Decimal
import InverseTemplate.Settings
import InverseTemplate.Text.Printable

namespace InverseTemplate

/-- What happened. -/
inductive Event where
  | slotsParsed (count : Nat)
  | hitInsideCode (offset : Nat)
  | leadFound (anchor : Text) (offset : Nat)
  | leadMissing (anchor : Text)
  | resynchronized (anchor : Text) (offset : Nat)
  | gapMissing (label : Text) (stop : Nat)
  | anchorMissing (anchor label : Text)
  | captured (label : Text) (start stop : Nat)
  | extracted (matched total : Nat) (confidence : Float)
  | pattern (source : Text)
  | compared (modified removed : Nat) (additions : Bool)
  | applied (policy : ArrayMerge)

namespace Event

/-- The level of an event. -/
def level : Event → Nat
  | .extracted .. | .pattern _ | .compared .. | .applied _ => 2
  | _ => 3

/-- A share of one, with two places. -/
def shareText (x : Float) : Text := Decimal.fixed 2 x

/-- The wording of an event. -/
def message : Event → Text
  | .slotsParsed count => text "Parsed " ++ Text.ofNat count ++ text " template slots"
  | .hitInsideCode offset =>
      text "Skipping anchor hit inside code fence at " ++ Text.ofNat offset
  | .leadFound anchor offset =>
      text "Leading anchor " ++ Text.quoted anchor ++ text " found at " ++ Text.ofNat offset
  | .leadMissing anchor => text "Leading anchor " ++ Text.quoted anchor ++ text " not found"
  | .resynchronized anchor offset =>
      text "Resynchronized on " ++ Text.quoted anchor ++ text " at " ++ Text.ofNat offset
  | .gapMissing label stop =>
      text "No break after " ++ Text.quoted label ++ text ", captured to section end " ++
        Text.ofNat stop
  | .anchorMissing anchor label =>
      text "Anchor " ++ Text.quoted anchor ++ text " after " ++ Text.quoted label ++
        text " not found"
  | .captured label start stop =>
      text "Captured " ++ Text.quoted label ++ text " at [" ++ Text.ofNat start ++ text ":" ++
        Text.ofNat stop ++ text "]"
  | .extracted matched total confidence =>
      text "Extracted " ++ Text.ofNat matched ++ text "/" ++ Text.ofNat total ++
        text " slots (confidence " ++ shareText confidence ++ text ")"
  | .pattern source => text "Pattern: " ++ source
  | .compared modified removed additions =>
      text "Diff: " ++ Text.ofNat modified ++ text " modified, " ++ Text.ofNat removed ++
        text " removed, " ++ (if additions then text "some" else text "no") ++
        text " additions"
  | .applied policy => text "Applied extracted data (" ++ policy.word ++ text " arrays)"

end Event

end InverseTemplate
