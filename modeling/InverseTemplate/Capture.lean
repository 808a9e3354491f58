/-
# Locating the values of slots

The slots are located from left to right.  A cursor stands behind everything that has been
used up; a slot's value runs from the cursor to the next hit of the anchor behind the slot, and
the cursor moves behind that hit.  One search serves one slot, and nothing is ever taken back.

* A text anchor that is not found leaves its slot without a value and the scan out of step: the
  slots that follow get no value either, until one of the text anchors behind them is found.
* A gap that is not found ends the slot where the section ends.
* Nothing behind a slot, or a mere gap behind the last one, lets it run to the end of the text;
  of two slots with nothing between them the first one gets nothing.
-/
import InverseTemplate.Anchor.Search
import InverseTemplate.Markdown.Fence
import InverseTemplate.Template.Split
import InverseTemplate.Text.LowerCase
import InverseTemplate.Trace

namespace InverseTemplate

/-! ## Names of groups -/

/-- A letter, digit or low line of ASCII. -/
def isGroupChar (c : Char) : Bool := Text.isAsciiLetter c || Text.isAsciiDigit c || c = '_'

/-- The name under which the capture of a slot is reported, by its kind and its place in the
template. -/
def Settings.groupName (settings : Settings) (slot : Slot) (index : Nat) : Text :=
  let lead := match slot.content with
    | .component name _ _ => settings.componentGroupLead ++ Text.lower name
    | .expression source | .conditional source | .loop source =>
        settings.groupLead ++
          (source.map fun c => if c = '.' then '_' else c).filter isGroupChar
  lead ++ '_' :: Text.ofNat index

/-! ## Captures -/

/-- A passage of the rendered text. -/
structure Passage where
  span : Span
  raw : Text
deriving DecidableEq

/-- The passage between two offsets. -/
def Passage.between (t : Text) (start stop : Nat) : Passage :=
  ⟨⟨start, stop⟩, Text.slice t start stop⟩

/-- What was found for a slot. -/
structure Capture where
  slot : Slot
  index : Nat
  group : Text
  /-- The slot's passage of the rendered text, if it was located. -/
  passage : Option Passage
deriving DecidableEq

/-- The text between the anchors, as it stands there. -/
def Capture.raw? (c : Capture) : Option Text := c.passage.map Passage.raw

/-- The value: the text between the anchors without the blanks around it, if anything is
left. -/
def Capture.value? (c : Capture) : Option Text :=
  match c.raw? with
  | none => none
  | some raw =>
      let value := Text.strip raw
      if value = [] then none else some value

/-! ## The scan -/

/-- Where a scan stands. -/
structure Scan where
  /-- Everything before this offset has been used up. -/
  cursor : Nat
  /-- Was the last text anchor found? -/
  synced : Bool
deriving DecidableEq

/-- What one step of the scan did. -/
structure Step where
  /-- The span of the slot, if it was located. -/
  span : Option Span
  next : Scan
  events : List Event

namespace Scan

/-- The events of the hits that a search passed over. -/
def skips (found : Found) : List Event := found.skipped.map Event.hitInsideCode

/-- The scan in front of the first slot, after the opening anchor. -/
def opening (blocks : List Span) (t : Text) (anchor : Anchor) : Scan × List Event :=
  match anchor with
  | .text a =>
      let found := searchOutside a.matcher blocks t 0
      match found.hit with
      | some hit => (⟨hit.stop, true⟩, skips found ++ [.leadFound a.trimmed hit.start])
      | none => (⟨0, false⟩, skips found ++ [.leadMissing a.trimmed])
  | _ => (⟨0, true⟩, [])

/-- A step of a scan that is out of step: the slot has no value, but the text behind it may be
found again. -/
def resync (blocks : List Span) (t : Text) (scan : Scan) (after : Anchor) : Step :=
  match after with
  | .text a =>
      let found := searchOutside a.matcher blocks t scan.cursor
      match found.hit with
      | some hit =>
          ⟨none, ⟨hit.stop, true⟩, skips found ++ [.resynchronized a.trimmed hit.start]⟩
      | none => ⟨none, scan, skips found⟩
  | _ => ⟨none, scan, []⟩

/-- The step that gives a slot everything from the cursor to `stop` and goes on at `next`. -/
def take (scan : Scan) (label : Text) (stop next : Nat) (events : List Event) : Step :=
  ⟨some ⟨scan.cursor, stop⟩, ⟨next, true⟩, events ++ [.captured label scan.cursor stop]⟩

/-- A step up to a gap, or else to the end of the section. -/
def takeToGap (settings : Settings) (blocks : List Span) (t : Text) (scan : Scan) (label : Text)
    (gap : Gap) : Step :=
  let origin := contentStart t scan.cursor
  let found := searchOutside gap.matcher blocks t origin
  match found.hit with
  | some hit => scan.take label hit.start hit.stop (skips found)
  | none =>
      let heading := searchOutside (settings.sectionBreak t) blocks t origin
      let stop := sectionEnd settings blocks t origin
      scan.take label stop stop
        (skips found ++ skips heading ++ [.gapMissing label stop])

/-- A step up to a text, which may be missing. -/
def takeToText (blocks : List Span) (t : Text) (scan : Scan) (label : Text)
    (anchor : TextAnchor) : Step :=
  let found := searchOutside anchor.matcher blocks t scan.cursor
  match found.hit with
  | some hit => scan.take label hit.start hit.stop (skips found)
  | none =>
      ⟨none, { scan with synced := false },
        skips found ++ [.anchorMissing anchor.trimmed label]⟩

/-- One step of the scan: a slot, the anchor behind it, and whether it is the last slot. -/
def step (settings : Settings) (blocks : List Span) (t : Text) (scan : Scan) (label : Text)
    (after : Anchor) (isLast : Bool) : Step :=
  if scan.synced then
    match after with
    | .empty =>
        let stop := if isLast then t.length else scan.cursor
        scan.take label stop stop []
    | .gap gap =>
        if isLast then scan.take label t.length t.length []
        else scan.takeToGap settings blocks t label gap
    | .text anchor => scan.takeToText blocks t label anchor
  else scan.resync blocks t after

end Scan

/-- Captures and the events on the way to them. -/
structure Captures where
  captures : List Capture
  events : List Event

namespace Captures

/-- The captures of the slots from the given index on. -/
def ofParts (settings : Settings) (blocks : List Span) (t : Text) (index : Nat) (scan : Scan) :
    List (Slot × Text) → Captures
  | [] => ⟨[], []⟩
  | (slot, literal) :: rest =>
      let step := scan.step settings blocks t slot.label (.ofLiteral literal) rest.isEmpty
      let capture : Capture :=
        { slot
          index
          group := settings.groupName slot index
          passage := step.span.map fun span => .between t span.start span.stop }
      let more := ofParts settings blocks t (index + 1) step.next rest
      ⟨capture :: more.captures, step.events ++ more.events⟩

/-- The captures of a template's slots in a rendered text. -/
def find (settings : Settings) (template : Template) (t : Text) : Captures :=
  let blocks := fences t
  let (scan, events) := Scan.opening blocks t (.ofLiteral template.opening)
  let found := ofParts settings blocks t 0 scan template.parts
  { found with events := events ++ found.events }

end Captures

/-! ## The pattern as a whole -/

/-- The groups and anchors of a template's parts as one regular expression.  Only a last slot
that runs to the end of the text is greedy. -/
def patternOfParts (settings : Settings) (index : Nat) : List (Slot × Text) → Text
  | [] => []
  | (slot, literal) :: rest =>
      let after := Anchor.ofLiteral literal
      let body := if rest.isEmpty && !after.isText then text ".*" else text ".*?"
      text "(?P<" ++ settings.groupName slot index ++ ['>'] ++ body ++ [')'] ++ after.source ++
        patternOfParts settings (index + 1) rest

/-- The sequence of anchors and groups that a template stands for, spelled as one regular
expression for people to read. -/
def Template.pattern (settings : Settings) (template : Template) : Text :=
  (Anchor.ofLiteral template.opening).source ++ patternOfParts settings 0 template.parts

end InverseTemplate
