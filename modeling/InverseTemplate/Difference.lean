/-
# The difference between a record and extracted data

Two maps are compared key by key and everything else as a whole.  What only the extracted side
has was added, nested as it stands there; what both have with unequal values was modified; what
only the record has was removed, and is listed leaf by leaf.  A list of selectors restricts all
three to what it covers.
-/
import InverseTemplate.Value.Equality
import InverseTemplate.Value.Path

namespace InverseTemplate

/-- A value before and after. -/
structure Change where
  before : Value
  after : Value

/-- The difference between a record and extracted data. -/
structure Difference where
  /-- Entries of the extracted side only. -/
  added : Entries Value
  /-- The changes by path. -/
  modified : Entries Change
  /-- The paths of the record only. -/
  removed : List Text

namespace Difference

/-- Nothing was added, modified or removed. -/
def isEmpty (d : Difference) : Bool :=
  d.added.isEmpty && d.modified.isEmpty && d.removed.isEmpty

/-- Is there any difference? -/
def hasChanges (d : Difference) : Bool := !d.isEmpty

/-- What comparing two maps found.  The changes are in the order of their discovery, and a path
may be found twice when keys hold dots. -/
structure Findings where
  added : Entries Value
  modified : List (Text × Change)
  removed : List Text

namespace Findings

/-- Nothing was found. -/
def empty : Findings := ⟨[], [], []⟩

/-- What was found below one key, then what was found at the keys after it. -/
def append (a b : Findings) : Findings :=
  ⟨a.added ++ b.added, a.modified ++ b.modified, a.removed ++ b.removed⟩

/-- The findings of a nested map, seen from the map that holds it under `key`. -/
def under (key : Text) (nested : Findings) : Findings :=
  { nested with added := if nested.added.isEmpty then [] else [(key, .map nested.added)] }

end Findings

variable (selectors : Option (List Text))

/-- The paths that the record's map at the path `above` has and the extracted one has not. -/
def missing (above : Text) (extracted base : Entries Value) : List Text :=
  base.flatMap fun entry =>
    if Entries.contains extracted entry.1 then []
    else
      let path := Path.join above entry.1
      ((entry.2.leavesAt path).map Prod.fst).filter fun leaf => Path.covered leaf selectors

mutual

/-- Compares an extracted value with what the record holds under the same key. -/
def compareValue (path key : Text) (old : Option Value) : Value → Findings
  | .map entries => match old with
      | some (.map record) =>
          let nested := compareEntries path record entries
          Findings.under key
            { nested with removed := nested.removed ++ missing selectors path entries record }
      | some v =>
          if Path.covered path selectors then
            ⟨[], [(path, ⟨v.plain, (Value.map entries).plain⟩)], []⟩
          else .empty
      | none =>
          if Path.covered path selectors then ⟨[(key, (Value.map entries).plain)], [], []⟩
          else Findings.under key (compareEntries path [] entries)
  | new => match old with
      | some v =>
          if !Value.equal v new && Path.covered path selectors then
            ⟨[], [(path, ⟨v.plain, new.plain⟩)], []⟩
          else .empty
      | none => ⟨[(key, new.plain)], [], []⟩

/-- Compares the extracted entries with those of the record's map at the path `above`. -/
def compareEntries (above : Text) (record : Entries Value) : List (Text × Value) → Findings
  | [] => .empty
  | (key, new) :: rest =>
      let path := Path.join above key
      let here :=
        if Path.walked path selectors then
          compareValue path key (Entries.get? record key) new
        else .empty
      here.append (compareEntries above record rest)

end

/-- The difference that the findings amount to: of two changes at one path the later one
counts. -/
def ofFindings (f : Findings) : Difference := ⟨f.added, Entries.ofWrites f.modified, f.removed⟩

/-- The difference between a record and extracted data.  Two values of which one is not a map
can differ only as a whole, under the empty path. -/
def between (base extracted : Value) : Difference :=
  match base, extracted with
  | .map record, .map entries =>
      let found := compareEntries selectors [] record entries
      ofFindings { found with removed := found.removed ++ missing selectors [] entries record }
  | _, _ =>
      if Value.equal base extracted then ⟨[], [], []⟩
      else ⟨[], [([], ⟨base.plain, extracted.plain⟩)], []⟩

end Difference

end InverseTemplate
