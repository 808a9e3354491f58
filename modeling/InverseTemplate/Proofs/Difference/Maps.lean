/-
# Comparing two maps

At every level the comparison does the same: it goes through the extracted entries, and then it
lists what the record has beyond them.  `compareMaps` is that step and `compareEntry` what it does
with one entry.  A difference is what is found at the top, and what is found between two maps under
one key is what is found below that key.
-/
import InverseTemplate.Difference
import InverseTemplate.Proofs.Merge.Silent
import InverseTemplate.Proofs.Value.Place

namespace InverseTemplate

namespace Difference

variable {selectors : Option (List Text)}

/-- Induction along a comparison: the record has nothing, or not both sides have maps, or the two
maps are compared under each extracted key. -/
@[elab_as_elim]
theorem compareInduction {motive : Option Value → Value → Prop} (fresh : ∀ v, motive none v)
    (whole : ∀ o v, ¬ (o.isMap = true ∧ v.isMap = true) → motive (some o) v)
    (maps : ∀ record entries : Entries Value,
      (∀ entry ∈ entries, motive (Entries.get? record entry.1) entry.2) →
        motive (some (.map record)) (.map entries))
    (old : Option Value) (v : Value) : motive old v := by
  induction v using Value.mapInduction generalizing old with
  | whole v hv =>
      cases old with
      | none => exact fresh v
      | some o => exact whole o v (by simp [hv])
  | map entries ih =>
      rcases Value.exists_map_or_forall old with ⟨record, rfl⟩ | hmap
      · exact maps record entries fun entry hentry => ih entry hentry _
      · cases old with
        | none => exact fresh (.map entries)
        | some o => exact whole o (.map entries) (by simp [hmap o rfl])

/-- What is found at one extracted entry, nothing if there is nothing to do at its path. -/
def compareEntry (selectors : Option (List Text)) (above : Text) (record : Entries Value)
    (entry : Text × Value) : Findings :=
  if Path.walked (Path.join above entry.1) selectors then
    compareValue selectors (Path.join above entry.1) entry.1 (Entries.get? record entry.1) entry.2
  else .empty

theorem compareEntry_none (above : Text) (record : Entries Value) (entry : Text × Value) :
    compareEntry none above record entry =
      compareValue none (Path.join above entry.1) entry.1 (Entries.get? record entry.1) entry.2 :=
  rfl

theorem compareEntries_cons (above : Text) (record : Entries Value) (entry : Text × Value)
    (rest : Entries Value) : compareEntries selectors above record (entry :: rest) =
      (compareEntry selectors above record entry).append
        (compareEntries selectors above record rest) := rfl

theorem added_compareEntries (above : Text) (record entries : Entries Value) :
    (compareEntries selectors above record entries).added =
      entries.flatMap fun entry => (compareEntry selectors above record entry).added := by
  induction entries with
  | nil => rfl
  | cons entry rest ih =>
      rw [compareEntries_cons, List.flatMap_cons, ← ih]
      rfl

/-- Nothing but paths that the record alone has. -/
def Findings.ofRemoved (paths : List Text) : Findings := ⟨[], [], paths⟩

/-- What is found between the record's map at a path and an extracted map. -/
def compareMaps (selectors : Option (List Text)) (path : Text) (record entries : Entries Value) :
    Findings :=
  (compareEntries selectors path record entries).append
    (.ofRemoved (missing selectors path entries record))

theorem added_compareMaps (path : Text) (record entries : Entries Value) :
    (compareMaps selectors path record entries).added =
      entries.flatMap fun entry => (compareEntry selectors path record entry).added := by
  rw [compareMaps, ← added_compareEntries]
  exact List.append_nil _

theorem compareValue_map_map (path key : Text) (record entries : Entries Value) :
    compareValue selectors path key (some (.map record)) (.map entries) =
      (compareMaps selectors path record entries).under key := by
  rw [compareValue, compareMaps]
  simp only [Findings.append, Findings.ofRemoved, List.append_nil]

theorem between_map_map (record entries : Entries Value) :
    between selectors (.map record) (.map entries) =
      ofFindings (compareMaps selectors [] record entries) := by
  simp only [between, compareMaps, Findings.append, Findings.ofRemoved, List.append_nil]

/-! ## What only the record has -/

/-- Of the findings, what only the record has. -/
def Findings.leftover (f : Findings) : Findings := ⟨[], [], f.removed⟩

theorem Findings.leftover_append (f g : Findings) :
    (f.append g).leftover = f.leftover.append g.leftover := rfl

theorem Findings.leftover_under (key : Text) (f : Findings) : (f.under key).leftover = f.leftover :=
  rfl

theorem leftover_compareValue_of_not_map {path key : Text} {old : Option Value} {v : Value}
    (hv : v.isMap = false) : (compareValue selectors path key old v).leftover = .empty := by
  rw [compareValue_of_not_map hv]
  cases old with
  | none => rfl
  | some o =>
      dsimp only
      split <;> rfl

theorem leftover_compareEntries_nil {above : Text} {entries : Entries Value}
    (h : ∀ entry ∈ entries, ∀ path key,
      (compareValue selectors path key none entry.2).leftover = .empty) :
    (compareEntries selectors above [] entries).leftover = .empty := by
  induction entries with
  | nil => rfl
  | cons entry rest ih =>
      obtain ⟨key, v⟩ := entry
      obtain ⟨hfirst, hrest⟩ := List.forall_mem_cons.mp h
      rw [compareEntries, Findings.leftover_append, ih hrest, Entries.get?_nil]
      split
      · rw [hfirst]
        rfl
      · rfl

theorem leftover_compareValue_none (v : Value) (path key : Text) :
    (compareValue selectors path key none v).leftover = .empty := by
  induction v using Value.mapInduction generalizing path key with
  | whole v hwhole => exact leftover_compareValue_of_not_map hwhole
  | map entries ih =>
      rw [compareValue]
      split
      · rfl
      · rw [Findings.leftover_under]
        exact leftover_compareEntries_nil ih

theorem leftover_compareValue_of_forall {path key : Text} {old : Option Value} {v : Value}
    (hold : ∀ o ∈ old, o.isMap = false) :
    (compareValue selectors path key old v).leftover = .empty := by
  cases old with
  | none => exact leftover_compareValue_none v path key
  | some o =>
      cases v with
      | map entries =>
          rw [compareValue_map_of_not_map (hold o rfl)]
          split <;> rfl
      | _ => exact leftover_compareValue_of_not_map rfl

theorem compareValue_none_none (path key : Text) (v : Value) :
    compareValue none path key none v = ⟨[(key, v.plain)], [], []⟩ := by
  cases v <;> rfl

theorem compareValue_of_not_maps {old new : Value} (h : ¬ (old.isMap = true ∧ new.isMap = true))
    (path key : Text) :
    compareValue none path key (some old) new =
      if Value.equal old new then .empty else ⟨[], [(path, ⟨old.plain, new.plain⟩)], []⟩ := by
  cases hnew : new.isMap with
  | false =>
      rw [compareValue_of_not_map hnew]
      cases heq : Value.equal old new <;> simp [heq, Path.covered]
  | true =>
      obtain ⟨entries, rfl⟩ := Value.exists_map_of_isMap hnew
      have hold : old.isMap = false := by simpa [hnew] using h
      rw [compareValue_map_of_not_map hold, Value.equal_map_of_not_map hold]
      simp [Path.covered]

end Difference

namespace Value

theorem leavesBelow_singleton (above key : Text) (v : Value) :
    leavesBelow above [(key, v)] = v.leavesAt (Path.join above key) := by
  rw [leavesBelow, leavesBelow, List.append_nil]

theorem leavesBelow_append (above : Text) (a b : Entries Value) :
    leavesBelow above (a ++ b) = leavesBelow above a ++ leavesBelow above b := by
  rw [leavesBelow_eq_flatMap, leavesBelow_eq_flatMap, leavesBelow_eq_flatMap, List.flatMap_append]

end Value

namespace Difference

theorem leavesBelow_added_under (above key : Text) (f : Findings) :
    Value.leavesBelow above (f.under key).added =
      Value.leavesBelow (Path.join above key) f.added := by
  obtain ⟨added, modified, removed⟩ := f
  cases added with
  | nil => rfl
  | cons entry rest => simp [Findings.under, Value.leavesBelow, Value.leavesAt]

end Difference

end InverseTemplate
