/-
# Merging extracted data into a record

Maps merge key by key: a map meets a map by merging, two arrays combine under a policy, and
anything else from the extracted side takes the place of what was there.  Keys of the record
keep their place; new keys follow in the order of the extracted side.

A list of selectors restricts what is taken over.  A branch that is walked only because a
selector lies below it comes into being only if something below it landed.
-/
import InverseTemplate.Settings
import InverseTemplate.Value.Path

namespace InverseTemplate

/-- Combines two arrays under a policy. -/
def ArrayMerge.combine (policy : ArrayMerge) (base extracted : List Value) : List Value :=
  match policy with
  | .replace => Value.plainItems extracted
  | .append => Value.plainItems base ++ Value.plainItems extracted
  | .prepend => Value.plainItems extracted ++ Value.plainItems base

namespace Merge

variable (policy : ArrayMerge) (selectors : Option (List Text))

mutual

/-- What an extracted value leaves at its path, given what the record holds there; nothing, if
it is a branch in which nothing landed. -/
def mergeValue (path : Text) (current : Option Value) : Value → Option Value
  | .map entries => match current with
      | some (.map below) => some (.map (mergeEntries path below entries))
      | _ =>
          let landed := mergeEntries path [] entries
          if landed ≠ [] ∨ Path.covered path selectors then some (.map landed) else none
  | .list items => match current.bind Value.items? with
      | some base => some (.list (policy.combine base items))
      | none => some (.list (Value.plainItems items))
  | .tuple items => match current.bind Value.items? with
      | some base => some (.list (policy.combine base items))
      | none => some (.list (Value.plainItems items))
  | .null => some .null
  | .bool b => some (.bool b)
  | .int n => some (.int n)
  | .float x => some (.float x)
  | .text t => some (.text t)
  | .other tag => some (.other tag)

/-- Merges extracted entries into those of the record's map at the path `above`. -/
def mergeEntries (above : Text) (target : Entries Value) : List (Text × Value) → Entries Value
  | [] => target
  | (key, v) :: rest =>
      let path := Path.join above key
      if Path.walked path selectors then
        match mergeValue path (Entries.get? target key) v with
        | some w => mergeEntries above (Entries.set target key w) rest
        | none => mergeEntries above target rest
      else mergeEntries above target rest

end

end Merge

/-- The choices of one merge. -/
structure MergeOptions where
  /-- Only what these selectors cover is taken over. -/
  paths : Option (List Text) := none
  /-- The array policy, unless it is left to the settings. -/
  arrayMerge : Option ArrayMerge := none

/-- The array policy in force. -/
def MergeOptions.policy (options : MergeOptions) (settings : Settings) : ArrayMerge :=
  options.arrayMerge.getD settings.arrayMerge

/-- The record with the extracted data merged into it.  If either of the two is not a map, the
extracted value takes the place of the whole record. -/
def applyExtracted (policy : ArrayMerge) (selectors : Option (List Text))
    (base extracted : Value) : Value :=
  match base, extracted with
  | .map record, .map entries =>
      .map (Merge.mergeEntries policy selectors [] (Value.plainEntries record) entries)
  | _, _ => extracted.plain

end InverseTemplate
