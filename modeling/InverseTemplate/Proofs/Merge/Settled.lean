/-
# Merging twice

A merge that replaces arrays is settled after one time: merging the same data into its own outcome
changes nothing (`applyExtracted_again`), and comparing the data with the outcome finds what the
record alone has, and neither additions nor modifications (`between_applyExtracted`).

Both are shown of one value at one path, by induction on the maps in it.  A map goes back to its
values by one observation: extracted data holds no key twice, so what stands under a key of the
merged map was settled by the one value extracted for it.
-/
import InverseTemplate.Proofs.Difference.Maps
import InverseTemplate.Proofs.Extraction.WellFormed
import InverseTemplate.Proofs.Merge.Plain
import InverseTemplate.Proofs.Merge.Silent
import InverseTemplate.Proofs.Value.Nested

namespace InverseTemplate

variable {selectors : Option (List Text)}

namespace Merge

/-! ## What an extracted map leaves -/

/-- An extracted map is merged into the map that is there, or else into an empty one; or nothing of
it lands at a path that no selector covers. -/
theorem mergeValue_map_cases (selectors : Option (List Text)) (path : Text)
    (current : Option Value) (entries : Entries Value) :
    (∃ below, mergeValue .replace selectors path current (.map entries) =
        some (.map (mergeEntries .replace selectors path below entries)) ∧
      (current = some (.map below) ∨ below = [] ∧ ∀ c ∈ current, c.isMap = false)) ∨
    (mergeValue .replace selectors path current (.map entries) = none ∧
      (∀ c ∈ current, c.isMap = false) ∧ Path.covered path selectors = false ∧
      mergeEntries .replace selectors path [] entries = []) := by
  rcases Value.exists_map_or_forall current with ⟨below, rfl⟩ | hcurrent
  · exact .inl ⟨below, rfl, .inl rfl⟩
  · rw [mergeValue_map_of_not_map hcurrent]
    by_cases hlands : mergeEntries .replace selectors path [] entries ≠ [] ∨
        Path.covered path selectors = true
    · exact .inl ⟨[], if_pos hlands, .inr ⟨rfl, hcurrent⟩⟩
    · obtain ⟨hnil, hcovered⟩ := not_or.mp hlands
      exact .inr ⟨if_neg hlands, hcurrent, Bool.eq_false_iff.mpr hcovered,
        Classical.not_not.mp hnil⟩

/-! ## Merging what has been merged -/

theorem mergeEntry_eq_self {above : Text} {m : Entries Value} {entry : Text × Value}
    (h : Path.walked (Path.join above entry.1) selectors = true →
      settled selectors (Path.join above entry.1) (Entries.get? m entry.1) entry.2 =
        Entries.get? m entry.1) :
    mergeEntry selectors above m entry = m := by
  unfold mergeEntry
  split
  · next hwalked =>
      split
      · next w hw => exact Entries.set_eq_self ((h hwalked).symm.trans (settled_of_some hw))
      · rfl
  · rfl

theorem mergeEntries_eq_self {above : Text} {m entries : Entries Value}
    (h : ∀ entry ∈ entries, Path.walked (Path.join above entry.1) selectors = true →
      settled selectors (Path.join above entry.1) (Entries.get? m entry.1) entry.2 =
        Entries.get? m entry.1) :
    mergeEntries .replace selectors above m entries = m := by
  induction entries with
  | nil => rw [mergeEntries]
  | cons entry rest ih =>
      obtain ⟨hfirst, hrest⟩ := List.forall_mem_cons.mp h
      rw [mergeEntries_cons, mergeEntry_eq_self hfirst, ih hrest]

theorem mergeEntries_again_of_settled {above : Text} {entries : Entries Value}
    (hnodup : Entries.NodupKeys entries)
    (h : ∀ entry ∈ entries, ∀ path current,
      settled selectors path (settled selectors path current entry.2) entry.2 =
        settled selectors path current entry.2)
    (target : Entries Value) :
    mergeEntries .replace selectors above (mergeEntries .replace selectors above target entries)
      entries = mergeEntries .replace selectors above target entries := by
  refine mergeEntries_eq_self fun entry hmem hwalked => ?_
  rw [get?_mergeEntries_of_mem hnodup hmem hwalked]
  exact h entry hmem _ _

theorem settled_settled {v : Value} (hv : v.WellFormed) (path : Text) (current : Option Value) :
    settled selectors path (settled selectors path current v) v =
      settled selectors path current v := by
  induction v using Value.mapInduction generalizing path current with
  | whole v hwhole =>
      rw [settled_of_some (mergeValue_of_not_map hwhole),
        settled_of_some (mergeValue_of_not_map hwhole)]
  | map entries ih =>
      rcases mergeValue_map_cases selectors path current entries with
        ⟨below, h, -⟩ | ⟨h, -⟩
      · have hagain : mergeEntries .replace selectors path
            (mergeEntries .replace selectors path below entries) entries =
              mergeEntries .replace selectors path below entries :=
          mergeEntries_again_of_settled hv.1
            (fun entry hmem => ih entry hmem (Value.wellFormed_of_mem hv.2 hmem)) below
        rw [settled_of_some h]
        refine settled_of_some ?_
        rw [mergeValue, hagain]
      · rw [settled_of_none h, settled_of_none h]

theorem mergeEntries_again {entries : Entries Value} (hentries : (Value.map entries).WellFormed)
    (above : Text) (target : Entries Value) :
    mergeEntries .replace selectors above (mergeEntries .replace selectors above target entries)
      entries = mergeEntries .replace selectors above target entries :=
  mergeEntries_again_of_settled hentries.1
    (fun _ hmem => settled_settled (Value.wellFormed_of_mem hentries.2 hmem)) target

theorem applyExtracted_again {record entries : Entries Value}
    (hentries : (Value.map entries).WellFormed) :
    applyExtracted .replace selectors
        (applyExtracted .replace selectors (.map record) (.map entries)) (.map entries) =
      applyExtracted .replace selectors (.map record) (.map entries) := by
  simp only [applyExtracted]
  rw [← plainEntries_mergeEntries, Value.plainEntries_plainEntries, mergeEntries_again hentries]

end Merge

namespace Difference

open Merge

/-! ## The paths that only the record has -/

theorem missing_set {above : Text} {extracted base : Entries Value} {key : Text}
    (h : Entries.contains extracted key = true) (v : Value) :
    missing selectors above extracted (Entries.set base key v) =
      missing selectors above extracted base := by
  unfold missing
  induction base with
  | nil => simp [Entries.set, h]
  | cons entry rest ih =>
      obtain ⟨k, w⟩ := entry
      rw [Entries.set]
      split
      · next hk => simp [hk, h]
      · rw [List.flatMap_cons, List.flatMap_cons, ih]

theorem missing_mergeEntries {above path : Text} {extracted base entries : Entries Value}
    (h : ∀ entry ∈ entries, Entries.contains extracted entry.1 = true) :
    missing selectors above extracted (mergeEntries .replace selectors path base entries) =
      missing selectors above extracted base := by
  induction entries generalizing base with
  | nil => rw [mergeEntries]
  | cons entry rest ih =>
      obtain ⟨hfirst, hrest⟩ := List.forall_mem_cons.mp h
      rw [mergeEntries_cons, ih hrest]
      unfold mergeEntry
      split
      · split
        · exact missing_set hfirst _
        · rfl
      · rfl

theorem missing_plainEntries (above : Text) (extracted base : Entries Value) :
    missing selectors above extracted (Value.plainEntries base) =
      missing selectors above extracted base := by
  unfold missing
  rw [Value.plainEntries_eq_map, List.flatMap_map]
  simp only [Value.map_fst_leavesAt_plain]

theorem missing_merged (above : Text) (record entries : Entries Value) :
    missing selectors above entries
        (mergeEntries .replace selectors above (Value.plainEntries record) entries) =
      missing selectors above entries record := by
  rw [missing_mergeEntries fun _ hmem => Entries.contains_of_mem hmem, missing_plainEntries]

/-! ## Comparing with what a merge left -/

theorem compareEntries_eq_leftover {above : Text} {merged record entries : Entries Value}
    (h : ∀ entry ∈ entries, Path.walked (Path.join above entry.1) selectors = true →
      compareValue selectors (Path.join above entry.1) entry.1 (Entries.get? merged entry.1)
          entry.2 =
        (compareValue selectors (Path.join above entry.1) entry.1 (Entries.get? record entry.1)
          entry.2).leftover) :
    compareEntries selectors above merged entries =
      (compareEntries selectors above record entries).leftover := by
  induction entries with
  | nil => rfl
  | cons entry rest ih =>
      obtain ⟨key, v⟩ := entry
      obtain ⟨hfirst, hrest⟩ := List.forall_mem_cons.mp h
      rw [compareEntries, compareEntries, ih hrest, Findings.leftover_append]
      split
      · next hwalked => rw [hfirst hwalked]
      · rfl

theorem compareEntries_merged_of_settled {above : Text} {record entries : Entries Value}
    (hnodup : Entries.NodupKeys entries)
    (h : ∀ entry ∈ entries, ∀ path key old,
      compareValue selectors path key (settled selectors path (old.map Value.plain) entry.2)
        entry.2 = (compareValue selectors path key old entry.2).leftover) :
    compareEntries selectors above
        (mergeEntries .replace selectors above (Value.plainEntries record) entries) entries =
      (compareEntries selectors above record entries).leftover := by
  refine compareEntries_eq_leftover fun entry hmem hwalked => ?_
  rw [get?_mergeEntries_of_mem hnodup hmem hwalked, Entries.get?_plainEntries]
  exact h entry hmem _ _ _

/-- An extracted map that meets no map finds nothing in what it settled, if it finds nothing in what
its entries leave in an empty map. -/
theorem compareValue_settled_map_of_forall {path key : Text} {current : Option Value}
    {entries : Entries Value} (hcurrent : ∀ c ∈ current, c.isMap = false)
    (hnone : compareEntries selectors path (mergeEntries .replace selectors path [] entries)
      entries = .empty) :
    compareValue selectors path key (settled selectors path current (.map entries))
      (.map entries) = .empty := by
  rcases mergeValue_map_cases selectors path current entries with
    ⟨below, h, hbelow⟩ | ⟨h, -, hcovered, hlanded⟩
  · obtain rfl : below = [] := by
      rcases hbelow with hmap | ⟨hnil, -⟩
      · exact absurd (hcurrent _ hmap) (by simp [Value.isMap, Value.entries?])
      · exact hnil
    rw [settled_of_some h, compareValue, hnone,
      missing_mergeEntries fun _ hmem => Entries.contains_of_mem hmem]
    rfl
  · -- nothing landed and the path is not covered, so there is nothing to report either
    rw [settled_of_none h]
    cases current with
    | none =>
        rw [hlanded] at hnone
        rw [compareValue, if_neg (by simp [hcovered]), hnone]
        rfl
    | some c => rw [compareValue_map_of_not_map (hcurrent c rfl), if_neg (by simp [hcovered])]

/-- Compared with what it settled, a value finds what only the record has. -/
theorem compareValue_settled {v : Value} (hv : v.WellFormed) (path key : Text)
    (old : Option Value) :
    compareValue selectors path key (settled selectors path (old.map Value.plain) v) v =
      (compareValue selectors path key old v).leftover := by
  induction v using Value.mapInduction generalizing path key old with
  | whole v hwhole =>
      have hequal : Value.equal v.plain v = true := by
        rw [← Value.equal_plain]
        exact Value.equal_refl _ (Value.wellFormed_plain v hv)
      rw [settled_of_some (mergeValue_of_not_map hwhole), leftover_compareValue_of_not_map hwhole,
        compareValue_of_not_map hwhole]
      simp [hequal]
  | map entries ih =>
      have hentries : ∀ record, compareEntries selectors path
          (mergeEntries .replace selectors path (Value.plainEntries record) entries) entries =
            (compareEntries selectors path record entries).leftover :=
        fun record => compareEntries_merged_of_settled hv.1
          fun entry hmem => ih entry hmem (Value.wellFormed_of_mem hv.2 hmem)
      rcases Value.exists_map_or_forall old with ⟨record, rfl⟩ | hold
      · have hsettled : settled selectors path ((some (.map record)).map Value.plain)
            (.map entries) = some (.map (mergeEntries .replace selectors path
              (Value.plainEntries record) entries)) := settled_of_some rfl
        rw [hsettled, compareValue, compareValue, hentries, missing_merged]
        rfl
      · -- the entries were built up from nothing, and where there was nothing nothing is left over
        have hnone : compareEntries selectors path
            (mergeEntries .replace selectors path [] entries) entries = .empty :=
          (hentries []).trans
            (leftover_compareEntries_nil fun entry _ => leftover_compareValue_none entry.2)
        rw [compareValue_settled_map_of_forall (Value.forall_isMap_plain.mpr hold) hnone,
          leftover_compareValue_of_forall hold]

theorem compareEntries_merged {entries : Entries Value} (hentries : (Value.map entries).WellFormed)
    (above : Text) (record : Entries Value) :
    compareEntries selectors above
        (mergeEntries .replace selectors above (Value.plainEntries record) entries) entries =
      (compareEntries selectors above record entries).leftover :=
  compareEntries_merged_of_settled hentries.1
    fun _ hmem => compareValue_settled (Value.wellFormed_of_mem hentries.2 hmem)

/-- Compared with the outcome of a merge, the extracted data adds and modifies nothing, and what the
record had beyond it is left over. -/
theorem between_applyExtracted {record entries : Entries Value}
    (hentries : (Value.map entries).WellFormed) :
    between selectors (applyExtracted .replace selectors (.map record) (.map entries))
        (.map entries) =
      ⟨[], [], (between selectors (.map record) (.map entries)).removed⟩ := by
  simp only [applyExtracted, between]
  rw [compareEntries_merged hentries, missing_merged]
  rfl

end Difference

end InverseTemplate
