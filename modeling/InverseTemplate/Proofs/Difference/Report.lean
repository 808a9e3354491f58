/-
# A difference place by place

The comparison reports places by dotted paths, glued together on the way down, and it reports what
was added as a map.  Here the same comparison is told by ways of keys: a report is a list of places,
each with a verdict, and `Tells` says that findings are what becomes of a report when its ways are
joined to paths.

Ways do not run into each other.  What is reported below one key starts with that key, and what the
record alone has starts with a key that the extracted map does not have; so by induction along the
comparison no place is reported twice (`nodup_ways_reportMaps`), whatever the keys are.  That two
places may have one path is left to those who need paths.
-/
import InverseTemplate.Proofs.Difference.Maps
import InverseTemplate.Proofs.Value.Place

namespace InverseTemplate

namespace Difference

open Value

/-! ## Reports -/

/-- What a comparison found, place by place. -/
structure Report where
  added : List (List Text × Value)
  changed : List (List Text × Change)
  removed : List (List Text)

namespace Report

/-- Nothing to report. -/
def empty : Report := ⟨[], [], []⟩

/-- What was found below one key, then what was found at the keys after it. -/
def append (a b : Report) : Report :=
  ⟨a.added ++ b.added, a.changed ++ b.changed, a.removed ++ b.removed⟩

/-- The report of a nested map, seen from the map that holds it under `key`. -/
def under (key : Text) (report : Report) : Report :=
  ⟨report.added.map fun place => (key :: place.1, place.2),
    report.changed.map fun place => (key :: place.1, place.2), report.removed.map (key :: ·)⟩

/-- The ways to all the places. -/
def ways (report : Report) : List (List Text) :=
  report.added.map Prod.fst ++ (report.changed.map Prod.fst ++ report.removed)

theorem ways_append (a b : Report) : (a.append b).ways.Perm (a.ways ++ b.ways) := by
  refine List.perm_iff_count.mpr fun way => ?_
  simp only [ways, append, List.map_append, List.count_append]
  omega

theorem ways_under (key : Text) (report : Report) :
    (report.under key).ways = report.ways.map (key :: ·) := by
  simp [ways, under, Function.comp_def]

end Report

/-- What is to be said of two values that are not both maps. -/
def changedHere (old new : Value) : Report :=
  if Value.equal old new then .empty else ⟨[], [([], ⟨old.plain, new.plain⟩)], []⟩

/-- The ways to the leaves that the record has under keys that the extracted map has not. -/
def missingWays (record entries : Entries Value) : List (List Text) :=
  record.flatMap fun entry =>
    (if Entries.contains entries entry.1 then [] else entry.2.leafPlaces.map Prod.fst).map
      (entry.1 :: ·)

mutual

/-- The report on an extracted value and on what the record has in its place. -/
def reportValue (old : Option Value) : Value → Report
  | .map entries => match old with
      | some (.map record) =>
          (reportEntries record entries).append ⟨[], [], missingWays record entries⟩
      | some o => changedHere o (.map entries)
      | none => ⟨(Value.map entries).leafPlaces, [], []⟩
  | new => match old with
      | some o => changedHere o new
      | none => ⟨new.leafPlaces, [], []⟩

/-- The report on the extracted entries. -/
def reportEntries (record : Entries Value) : List (Text × Value) → Report
  | [] => .empty
  | (key, new) :: rest =>
      ((reportValue (Entries.get? record key) new).under key).append (reportEntries record rest)

end

/-- The report on two maps. -/
def reportMaps (record entries : Entries Value) : Report :=
  (reportEntries record entries).append ⟨[], [], missingWays record entries⟩

/-- The report on one extracted entry. -/
def reportEntry (record : Entries Value) (entry : Text × Value) : Report :=
  (reportValue (Entries.get? record entry.1) entry.2).under entry.1

theorem reportEntries_eq (record entries : Entries Value) :
    reportEntries record entries =
      ⟨entries.flatMap fun entry => (reportEntry record entry).added,
        entries.flatMap fun entry => (reportEntry record entry).changed,
        entries.flatMap fun entry => (reportEntry record entry).removed⟩ := by
  induction entries with
  | nil => rfl
  | cons entry rest ih =>
      obtain ⟨key, v⟩ := entry
      rw [reportEntries, ih]
      rfl

theorem added_reportMaps (record entries : Entries Value) : (reportMaps record entries).added =
    entries.flatMap fun entry => (reportEntry record entry).added := by
  rw [reportMaps, reportEntries_eq]
  exact List.append_nil _

theorem changed_reportMaps (record entries : Entries Value) : (reportMaps record entries).changed =
    entries.flatMap fun entry => (reportEntry record entry).changed := by
  rw [reportMaps, reportEntries_eq]
  exact List.append_nil _

theorem removed_reportMaps (record entries : Entries Value) : (reportMaps record entries).removed =
    (entries.flatMap fun entry => (reportEntry record entry).removed) ++
      missingWays record entries := by
  rw [reportMaps, reportEntries_eq]
  rfl

theorem reportValue_map_map (record entries : Entries Value) :
    reportValue (some (.map record)) (.map entries) = reportMaps record entries := by
  rw [reportValue, reportMaps]

theorem reportValue_none (v : Value) : reportValue none v = ⟨v.leafPlaces, [], []⟩ := by
  cases v <;> rfl

theorem reportValue_of_not_maps {old new : Value} (h : ¬ (old.isMap = true ∧ new.isMap = true)) :
    reportValue (some old) new = changedHere old new := by
  cases new with
  | map entries =>
      cases old with
      | map record => exact absurd ⟨rfl, rfl⟩ h
      | _ => rfl
  | _ => rfl

/-! ## Findings told by ways -/

/-- The findings at the path `above` are those of the report, with its ways joined to paths. -/
structure Tells (above : Text) (f : Findings) (report : Report) : Prop where
  added : leavesBelow above f.added =
    report.added.map fun place => (place.1.foldl Path.join above, place.2.plain)
  modified : f.modified = report.changed.map fun place => (place.1.foldl Path.join above, place.2)
  removed : f.removed = report.removed.map (·.foldl Path.join above)

variable {above key : Text} {f g : Findings} {report other : Report}

theorem tells_empty (above : Text) : Tells above .empty .empty := ⟨rfl, rfl, rfl⟩

theorem Tells.append (h : Tells above f report) (h' : Tells above g other) :
    Tells above (f.append g) (report.append other) := by
  constructor
  · rw [Findings.append, leavesBelow_append, h.added, h'.added, Report.append, List.map_append]
  · rw [Findings.append, h.modified, h'.modified, Report.append, List.map_append]
  · rw [Findings.append, h.removed, h'.removed, Report.append, List.map_append]

theorem Tells.under (h : Tells (Path.join above key) f report) :
    Tells above (f.under key) (report.under key) := by
  constructor
  · rw [leavesBelow_added_under, h.added, Report.under, List.map_map]
    rfl
  · rw [Report.under, List.map_map]
    exact h.modified
  · rw [Report.under, List.map_map]
    exact h.removed

theorem tells_compareValue_none (above key : Text) (v : Value) :
    Tells above (compareValue none (Path.join above key) key none v)
      ((reportValue none v).under key) := by
  rw [compareValue_none_none, reportValue_none]
  refine ⟨?_, rfl, rfl⟩
  rw [leavesBelow_singleton, leavesAt_plain, leavesAt_eq_map, Report.under, List.map_map,
    List.map_map]
  rfl

theorem tells_compareValue_of_not_maps {old new : Value}
    (h : ¬ (old.isMap = true ∧ new.isMap = true)) (above key : Text) :
    Tells above (compareValue none (Path.join above key) key (some old) new)
      ((reportValue (some old) new).under key) := by
  rw [compareValue_of_not_maps h, reportValue_of_not_maps h, changedHere]
  split
  · exact tells_empty above
  · exact ⟨rfl, rfl, rfl⟩

theorem tells_missing (above : Text) (record entries : Entries Value) :
    Tells above (.ofRemoved (missing none above entries record))
      ⟨[], [], missingWays record entries⟩ := by
  refine ⟨rfl, rfl, ?_⟩
  rw [Findings.ofRemoved, missing, missingWays, List.map_flatMap]
  refine congrArg (record.flatMap ·) (funext fun entry => ?_)
  split
  · rfl
  · dsimp only
    rw [List.filter_eq_self.mpr fun _ _ => Path.covered_none _, leavesAt_eq_map]
    simp only [List.map_map]
    rfl

theorem tells_compareMaps_of_forall {record entries : Entries Value}
    (h : ∀ entry ∈ entries,
      Tells above (compareValue none (Path.join above entry.1) entry.1
          (Entries.get? record entry.1) entry.2)
        (reportEntry record entry)) :
    Tells above (compareMaps none above record entries) (reportMaps record entries) := by
  refine Tells.append ?_ (tells_missing above record entries)
  induction entries with
  | nil => exact tells_empty above
  | cons entry rest ih =>
      obtain ⟨hfirst, hrest⟩ := List.forall_mem_cons.mp h
      rw [compareEntries_cons, reportEntries, compareEntry_none]
      exact hfirst.append (ih hrest)

theorem tells_compareValue (above key : Text) (old : Option Value) (v : Value) :
    Tells above (compareValue none (Path.join above key) key old v)
      ((reportValue old v).under key) := by
  induction old, v using compareInduction generalizing above key with
  | fresh v => exact tells_compareValue_none above key v
  | whole o v hmaps => exact tells_compareValue_of_not_maps hmaps above key
  | maps record entries ih =>
      rw [compareValue_map_map, reportValue_map_map]
      exact (tells_compareMaps_of_forall fun entry hentry => ih entry hentry _ _).under

/-- What comparing two maps finds is their report. -/
theorem tells_compareMaps (above : Text) (record entries : Entries Value) :
    Tells above (compareMaps none above record entries) (reportMaps record entries) :=
  tells_compareMaps_of_forall fun _ _ => tells_compareValue ..

/-! ## No place is reported twice -/

theorem nodup_ways_changedHere (old new : Value) : (changedHere old new).ways.Nodup := by
  unfold changedHere
  split
  · exact List.nodup_nil
  · exact List.pairwise_singleton _ _

theorem ways_reportEntries_perm (record entries : Entries Value) :
    (reportEntries record entries).ways.Perm
      (entries.flatMap fun entry =>
        (reportValue (Entries.get? record entry.1) entry.2).ways.map (entry.1 :: ·)) := by
  induction entries with
  | nil => exact List.Perm.refl _
  | cons entry rest ih =>
      obtain ⟨key, v⟩ := entry
      rw [reportEntries, List.flatMap_cons, ← Report.ways_under]
      exact (Report.ways_append _ _).trans (List.Perm.append_left _ ih)

theorem mem_missingWays {record entries : Entries Value} {way : List Text} :
    way ∈ missingWays record entries ↔
      ∃ entry ∈ record, Entries.contains entries entry.1 = false ∧
        ∃ place ∈ entry.2.leafPlaces, entry.1 :: place.1 = way := by
  rw [missingWays, List.mem_flatMap]
  refine exists_congr fun entry => and_congr_right fun _ => ?_
  cases Entries.contains entries entry.1 <;> simp

theorem nodup_missingWays {record : Entries Value} (hrecord : (Value.map record).WellFormed)
    (entries : Entries Value) : (missingWays record entries).Nodup := by
  refine nodup_flatMap_cons hrecord.1 fun entry hentry => ?_
  split
  · exact List.nodup_nil
  · exact nodup_leafPlaces (wellFormed_of_mem hrecord.2 hentry)

theorem ways_reportMaps_perm (record entries : Entries Value) :
    (reportMaps record entries).ways.Perm
      ((entries.flatMap fun entry =>
        (reportValue (Entries.get? record entry.1) entry.2).ways.map (entry.1 :: ·)) ++
          missingWays record entries) :=
  (Report.ways_append _ _).trans (List.Perm.append_right _ (ways_reportEntries_perm ..))

theorem nodup_ways_reportMaps_of_forall {record entries : Entries Value}
    (hrecord : (Value.map record).WellFormed) (hentries : Entries.NodupKeys entries)
    (h : ∀ entry ∈ entries, (reportValue (Entries.get? record entry.1) entry.2).ways.Nodup) :
    (reportMaps record entries).ways.Nodup := by
  rw [(ways_reportMaps_perm record entries).nodup_iff, List.nodup_append]
  refine ⟨nodup_flatMap_cons hentries h, nodup_missingWays hrecord entries, ?_⟩
  -- the first key of a way in both lists would be one of the extracted map and not one of it
  rintro way hway _ hmissing rfl
  obtain ⟨entry, hentry, hmem⟩ := List.mem_flatMap.mp hway
  obtain ⟨more, -, rfl⟩ := List.mem_map.mp hmem
  obtain ⟨other, -, hnone, rest, -, heq⟩ := mem_missingWays.mp hmissing
  rw [(List.cons.inj heq).1, Entries.contains_of_mem hentry] at hnone
  exact absurd hnone (by simp)

theorem nodup_ways_reportValue {old : Option Value} (hold : ∀ o ∈ old, o.WellFormed) {v : Value}
    (hv : v.WellFormed) : (reportValue old v).ways.Nodup := by
  induction old, v using compareInduction with
  | fresh v =>
      have hways : Report.ways ⟨v.leafPlaces, [], []⟩ = v.leafPlaces.map Prod.fst :=
        List.append_nil _
      rw [reportValue_none, hways]
      exact nodup_leafPlaces hv
  | whole o v hmaps =>
      rw [reportValue_of_not_maps hmaps]
      exact nodup_ways_changedHere o v
  | maps record entries ih =>
      have hrecord := hold (.map record) rfl
      rw [reportValue_map_map]
      exact nodup_ways_reportMaps_of_forall hrecord hv.1 fun entry hentry =>
        ih entry hentry (fun o ho => wellFormed_of_get? hrecord.2 ho)
          (wellFormed_of_mem hv.2 hentry)

theorem nodup_ways_reportMaps {record entries : Entries Value}
    (hrecord : (Value.map record).WellFormed) (hentries : (Value.map entries).WellFormed) :
    (reportMaps record entries).ways.Nodup := by
  have hold : ∀ o ∈ some (Value.map record), o.WellFormed := by
    rintro o ⟨⟩
    exact hrecord
  have hnodup := nodup_ways_reportValue hold hentries
  rwa [reportValue_map_map] at hnodup

theorem nodup_added_reportMaps {record entries : Entries Value}
    (hrecord : (Value.map record).WellFormed) (hentries : (Value.map entries).WellFormed) :
    ((reportMaps record entries).added.map Prod.fst).Nodup :=
  (List.nodup_append.mp (nodup_ways_reportMaps hrecord hentries)).1

theorem nodup_changed_reportMaps {record entries : Entries Value}
    (hrecord : (Value.map record).WellFormed) (hentries : (Value.map entries).WellFormed) :
    ((reportMaps record entries).changed.map Prod.fst).Nodup :=
  (List.nodup_append.mp (List.nodup_append.mp (nodup_ways_reportMaps hrecord hentries)).2.1).1

theorem nodup_removed_reportMaps {record entries : Entries Value}
    (hrecord : (Value.map record).WellFormed) (hentries : (Value.map entries).WellFormed) :
    (reportMaps record entries).removed.Nodup :=
  (List.nodup_append.mp (List.nodup_append.mp (nodup_ways_reportMaps hrecord hentries)).2.1).2.1

end Difference

end InverseTemplate
