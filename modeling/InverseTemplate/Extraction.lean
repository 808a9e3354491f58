/-
# Extraction and syncing

Extraction undoes rendering: from a template and a text rendered from it, it puts the data
together again.  A plain path receives its slot's value; a component's props come from its
extractor and are placed where the template binds them, at the top, or under the component's
name.  Conditionals and loops are located but never evaluated.

A slot that yields nothing is unmatched, which is no failure unless the extraction is strict.
Only the extractors of the caller can fail.

A document was rendered from a template and a record, and someone edited the text.  Syncing
extracts the data from the edited text, tells how it differs from the record, and merges it
into the record.  One list of selectors restricts both the difference and the merge.
-/
import InverseTemplate.Capture
import InverseTemplate.Component
import InverseTemplate.Confidence
import InverseTemplate.Difference
import InverseTemplate.Merge
import InverseTemplate.Props

namespace InverseTemplate

/-- What an extraction may be given besides the template and the text. -/
structure ExtractOptions where
  extractors : Extractors := []
  placement : Placement := .bindings
  scorer : Scorer := .ratio

/-- The placement that an option asks for; without one, and for an empty word, that of the
settings. -/
def Settings.placementFor (settings : Settings) (option : Value) : Except Failure Placement :=
  if option.isTruthy then Placement.read option else .ok settings.placement

/-! ## Placing the props of a component -/

namespace Placement

/-- Writes every prop that the component yields at the path it is bound to; props that are bound
to anything else, and props that are not bound, are dropped. -/
def writeBound (yielded : Entries Value) (data : Entries Value) :
    List (Text × Text) → Entries Value
  | [] => data
  | (prop, bound) :: rest =>
      match Entries.get? yielded prop with
      | some v =>
          if Expression.isPath bound then
            writeBound yielded (Entries.setPath data (Path.split bound) v.plain) rest
          else writeBound yielded data rest
      | none => writeBound yielded data rest

/-- The data with the props that a component yields put in their place. -/
def place (placement : Placement) (policy : ArrayMerge) (slot : Slot)
    (yielded : Value) (data : Entries Value) : Except Failure (Entries Value) :=
  let merged (entries : Entries Value) :=
    Merge.mergeEntries policy none [] (Value.plainEntries data) entries
  match placement with
  | .bindings =>
      match yielded with
      | .map props => .ok (writeBound props data slot.props)
      | v => do
          Props.search v slot.props
          return data
  | .root => do return merged (← Props.all yielded)
  | .component => do return merged [(slot.name?.getD [], .map (← Props.all yielded))]

end Placement

/-! ## Collecting the values -/

/-- The data put together so far, and the slots that yielded nothing. -/
structure Collected where
  data : Entries Value
  unmatched : List Slot

namespace Collected

/-- Nothing has been looked at. -/
def empty : Collected := ⟨[], []⟩

/-- One more slot without a value. -/
def miss (c : Collected) (slot : Slot) : Collected :=
  { c with unmatched := c.unmatched ++ [slot] }

/-- One more slot with the props that its component yields. -/
def addProps (settings : Settings) (placement : Placement) (c : Collected) (slot : Slot) :
    Option Value → Except Failure Collected
  | none => .ok (c.miss slot)
  | some yielded => do
      return { c with data := ← placement.place settings.arrayMerge slot yielded c.data }

/-- One more capture. -/
def add (settings : Settings) (options : ExtractOptions) (c : Collected) (capture : Capture) :
    Except Failure Collected :=
  let slot := capture.slot
  match slot.content, capture.value? with
  | .expression path, some value =>
      .ok { c with data := Entries.setPath c.data (Path.split path) (.text value) }
  | .component name _ _, some value =>
      match Entries.get? options.extractors name with
      | some extractor => do
          addProps settings options.placement c slot (← extractor.props value)
      | none => .ok (c.miss slot)
  | _, _ => .ok (c.miss slot)

/-- All captures, in their order. -/
def ofCaptures (settings : Settings) (options : ExtractOptions) (captures : List Capture) :
    Except Failure Collected :=
  captures.foldlM (add settings options) empty

end Collected

/-! ## The result -/

/-- The outcome of an extraction. -/
structure Extraction where
  /-- The data, nested as the paths say. -/
  data : Entries Value
  /-- The completeness of the data, between 0 and 1. -/
  confidence : Float
  /-- The labels of the slots that yielded nothing. -/
  unmatched : List Text
  /-- The pattern that was looked for. -/
  pattern : Text
  /-- The raw text found for every slot. -/
  groups : Entries (Option Text)
  slots : List Slot
  events : List Event

namespace Extraction

/-- Is there a value for every slot? -/
def matched (e : Extraction) : Bool := e.unmatched.isEmpty

/-- The outcome of an extraction that tolerates unmatched slots. -/
def lenient (settings : Settings) (options : ExtractOptions) (source rendered : Text) :
    Except Failure Extraction := do
  let template := Template.ofText source
  let slots := template.slots
  let found := Captures.find settings template rendered
  let collected ← Collected.ofCaptures settings options found.captures
  let confidence := options.scorer.score slots collected.unmatched
  let pattern := template.pattern settings
  return {
    data := collected.data
    confidence
    unmatched := collected.unmatched.map Slot.label
    pattern
    groups := Entries.ofWrites (found.captures.map fun c => (c.group, c.raw?))
    slots
    events :=
      .slotsParsed slots.length :: found.events ++
        .extracted (slots.length - collected.unmatched.length) slots.length confidence ::
          (if settings.debug then [.pattern pattern] else []) }

/-- What a strict extraction reports of an outcome with unmatched slots. -/
def report (e : Extraction) : Unmatched := ⟨e.unmatched, e.pattern, e.groups⟩

/-- The outcome, if it is complete or need not be. -/
def demand (e : Extraction) (strict : Bool) : Except Failure Extraction :=
  if strict && !e.matched then .error (.unmatched e.report) else .ok e

end Extraction

/-- Extracts the data that a text was rendered from.  Without a word on strictness the settings
decide. -/
def extract (settings : Settings) (options : ExtractOptions) (strict : Option Bool)
    (source rendered : Text) : Except Failure Extraction := do
  let e ← Extraction.lenient settings options source rendered
  e.demand (strict.getD settings.strict)

/-! ## Syncing edits back -/

/-- The outcome of a sync. -/
structure SyncResult where
  /-- The record with the edits merged into it. -/
  updated : Value
  changes : Difference
  extraction : Extraction

/-- Pulls the edits of a text back into the record that it was rendered from. -/
def syncEdits (settings : Settings) (extractors : Extractors) (options : MergeOptions)
    (source : Text) (base : Value) (edited : Text) : Except Failure SyncResult := do
  let extraction ←
    extract settings { extractors, placement := settings.placement } none source edited
  let data := Value.map extraction.data
  return {
    updated := applyExtracted (options.policy settings) options.paths base data
    changes := Difference.between options.paths base data
    extraction }

end InverseTemplate
