/-
# What a difference says of each place

A comparison without selectors is a report on places.  It goes down as long as both sides have maps,
and there a place is

* changed, if both sides have unequal values there and not both of them are maps,
* added, if it is a leaf of the extracted side and the way to it leaves the record's maps,
* removed, if it is a leaf of the record and the way to it leaves the extracted maps.

To leave the maps is to come to a map that does not have the next key (`Lost`).  To come to anything
else than a map is not: what stands there is changed as a whole.

Each of the three is read off the report, whose places have their keys in front of them, and told of
the findings, which have their paths.
-/
import InverseTemplate.Proofs.Difference.Report

namespace InverseTemplate

namespace Value

/-- The way leaves the maps of the value: it comes to a map that does not have the next key. -/
def Lost : Value → List Text → Prop
  | .map entries, key :: more =>
      match Entries.get? entries key with
      | some v => Lost v more
      | none => True
  | _, _ => False

theorem lost_map_cons {entries : Entries Value} {key : Text} {more : List Text} :
    Lost (.map entries) (key :: more) ↔ ∀ v ∈ Entries.get? entries key, Lost v more := by
  rw [Lost]
  cases Entries.get? entries key <;> simp

theorem not_lost_nil (v : Value) : ¬ Lost v [] := by
  cases v <;> simp [Lost]

theorem not_lost_of_not_map {v : Value} (h : v.isMap = false) (keys : List Text) :
    ¬ Lost v keys := by
  cases v with
  | map entries => exact absurd h (by simp [isMap, entries?])
  | _ => simp [Lost]

theorem not_lost_of_isPrefix {v x : Value} {keys way : List Text} (hbegin : keys <+: way)
    (h : getPath? v way = some x) : ¬ Lost v keys := by
  obtain ⟨more, rfl⟩ := hbegin
  rw [getPath?_append] at h
  obtain ⟨w, hw, -⟩ := Option.bind_eq_some_iff.mp h
  clear h
  induction keys generalizing v with
  | nil => exact not_lost_nil v
  | cons key rest ih =>
      cases v with
      | map entries =>
          rw [getPath?_map_cons] at hw
          obtain ⟨u, hu, hw⟩ := Option.bind_eq_some_iff.mp hw
          exact fun hlost => ih hw (lost_map_cons.mp hlost u hu)
      | _ => simp [Lost]

theorem exists_of_not_lost {v : Value} {keys : List Text} (h : ¬ Lost v keys) :
    ∃ p x, p <+: keys ∧ getPath? v p = some x ∧ (p = keys ∨ x.isMap = false) := by
  induction keys generalizing v with
  | nil => exact ⟨[], v, List.prefix_refl _, rfl, .inl rfl⟩
  | cons key rest ih =>
      cases hmap : v.isMap with
      | false => exact ⟨[], v, List.nil_prefix, rfl, .inr hmap⟩
      | true =>
          obtain ⟨entries, rfl⟩ := exists_map_of_isMap hmap
          rw [lost_map_cons] at h
          obtain ⟨w, hw, hlost⟩ : ∃ w ∈ Entries.get? entries key, ¬ Lost w rest := by
            simpa using h
          obtain ⟨p, x, hp, hx, hend⟩ := ih hlost
          refine ⟨key :: p, x, List.cons_prefix_cons.mpr ⟨rfl, hp⟩, ?_, hend.imp_left ?_⟩
          · rw [getPath?_map_cons, hw]
            exact hx
          · rintro rfl
            rfl

theorem leafAt_map_cons {entries : Entries Value} {path p key : Text} {x : Value}
    {more : List Text} :
    LeafAt (.map entries) path p x (key :: more) ↔
      ∃ v ∈ Entries.get? entries key, LeafAt v (Path.join path key) p x more := by
  unfold LeafAt
  rw [getPath?_map_cons, List.foldl_cons, Option.bind_eq_some_iff]
  constructor
  · rintro ⟨⟨v, hv, hget⟩, hrest⟩
    exact ⟨v, hv, hget, hrest⟩
  · rintro ⟨v, hv, hget, hrest⟩
    exact ⟨⟨v, hv, hget⟩, hrest⟩

theorem leafAt_of_isLeaf {v : Value} (h : v.IsLeaf) {path p : Text} {x : Value}
    {keys : List Text} : LeafAt v path p x keys ↔ keys = [] ∧ p = path ∧ x = v := by
  cases keys with
  | nil =>
      simp only [LeafAt, getPath?, Option.some.injEq, List.foldl_nil, true_and]
      constructor
      · rintro ⟨rfl, -, hp⟩
        exact ⟨hp, rfl⟩
      · rintro ⟨hp, rfl⟩
        exact ⟨rfl, h, hp⟩
  | cons key more => simp [LeafAt, getPath?_cons_of_isLeaf h]

end Value

namespace Difference

open Value

/-! ## Changed -/

/-- Both sides have a value at the end of a way, unequal and not both maps. -/
def ChangedAt (old new : Value) (path : Text) (change : Text × Change) (keys : List Text) : Prop :=
  ∃ o n, getPath? old keys = some o ∧ getPath? new keys = some n ∧
    ¬ (o.isMap = true ∧ n.isMap = true) ∧ Value.equal o n = false ∧
    change = (keys.foldl Path.join path, ⟨o.plain, n.plain⟩)

theorem changedAt_nil {old new : Value} {path : Text} {change : Text × Change} :
    ChangedAt old new path change [] ↔
      ¬ (old.isMap = true ∧ new.isMap = true) ∧ Value.equal old new = false ∧
        change = (path, ⟨old.plain, new.plain⟩) := by
  simp [ChangedAt, getPath?]

theorem changedAt_map_cons {record entries : Entries Value} {path : Text} {change : Text × Change}
    {key : Text} {more : List Text} :
    ChangedAt (.map record) (.map entries) path change (key :: more) ↔
      ∃ o ∈ Entries.get? record key, ∃ n ∈ Entries.get? entries key,
        ChangedAt o n (Path.join path key) change more := by
  simp only [ChangedAt, getPath?_map_cons, Option.bind_eq_some_iff, List.foldl_cons]
  constructor
  · rintro ⟨o, n, ⟨o', ho', ho⟩, ⟨n', hn', hn⟩, hrest⟩
    exact ⟨o', ho', n', hn', o, n, ho, hn, hrest⟩
  · rintro ⟨o', ho', n', hn', o, n, ho, hn, hrest⟩
    exact ⟨o, n, ⟨o', ho', ho⟩, ⟨n', hn', hn⟩, hrest⟩

theorem changedAt_of_not_maps {old new : Value} (h : ¬ (old.isMap = true ∧ new.isMap = true))
    {path : Text} {change : Text × Change} {keys : List Text} :
    ChangedAt old new path change keys ↔
      keys = [] ∧ Value.equal old new = false ∧ change = (path, ⟨old.plain, new.plain⟩) := by
  cases keys with
  | nil => simp [changedAt_nil, h]
  | cons key more =>
      refine iff_of_false ?_ (by simp)
      rintro ⟨o, n, ho, hn, -⟩
      rcases Classical.not_and_iff_not_or_not.mp h with hmap | hmap
      · rw [getPath?_cons_of_isLeaf (isLeaf_of_not_map (Bool.eq_false_iff.mpr hmap))] at ho
        exact absurd ho (by simp)
      · rw [getPath?_cons_of_isLeaf (isLeaf_of_not_map (Bool.eq_false_iff.mpr hmap))] at hn
        exact absurd hn (by simp)

theorem mem_changed_reportMaps_of_forall {path : Text} {record entries : Entries Value}
    (hentries : Entries.NodupKeys entries) {change : Change}
    (h : ∀ entry ∈ entries, ∀ keys,
      (keys, change) ∈ (reportValue (Entries.get? record entry.1) entry.2).changed ↔
        ∃ o ∈ Entries.get? record entry.1, ChangedAt o entry.2 (Path.join path entry.1)
          (keys.foldl Path.join (Path.join path entry.1), change) keys) {keys : List Text} :
    (keys, change) ∈ (reportMaps record entries).changed ↔
      ChangedAt (.map record) (.map entries) path (keys.foldl Path.join path, change) keys := by
  rw [changed_reportMaps, List.mem_flatMap]
  constructor
  · rintro ⟨entry, hentry, hmem⟩
    obtain ⟨⟨more, change⟩, hplace, heq⟩ := List.mem_map.mp hmem
    cases heq
    obtain ⟨o, ho, hchanged⟩ := (h entry hentry more).mp hplace
    exact changedAt_map_cons.mpr
      ⟨o, ho, entry.2, Entries.get?_of_mem hentries hentry, hchanged⟩
  · intro hchanged
    cases keys with
    | nil => exact absurd ⟨rfl, rfl⟩ (changedAt_nil.mp hchanged).1
    | cons key more =>
        obtain ⟨o, ho, n, hn, hmore⟩ := changedAt_map_cons.mp hchanged
        have hentry := Entries.mem_of_get? hn
        exact ⟨(key, n), hentry, List.mem_map.mpr
          ⟨(more, change), (h (key, n) hentry more).mpr ⟨o, ho, hmore⟩, rfl⟩⟩

theorem mem_changed_reportValue {old : Option Value} {v : Value} (hv : v.WellFormed) (path : Text)
    {keys : List Text} {change : Change} :
    (keys, change) ∈ (reportValue old v).changed ↔
      ∃ o ∈ old, ChangedAt o v path (keys.foldl Path.join path, change) keys := by
  induction old, v using compareInduction generalizing path keys with
  | fresh v => simp [reportValue_none]
  | whole o v hmaps =>
      simp only [reportValue_of_not_maps hmaps, changedHere, Option.mem_some_iff, exists_eq_left',
        changedAt_of_not_maps hmaps]
      cases Value.equal o v with
      | true => simp [Report.empty]
      | false => simpa using fun hnil _ => hnil ▸ rfl
  | maps record entries ih =>
      simp only [reportValue_map_map, Option.mem_some_iff, exists_eq_left']
      exact mem_changed_reportMaps_of_forall hv.1 fun entry hentry keys =>
        ih entry hentry (wellFormed_of_mem hv.2 hentry) _

theorem mem_changed_reportMaps {record entries : Entries Value}
    (hentries : (Value.map entries).WellFormed) (path : Text) {keys : List Text} {change : Change} :
    (keys, change) ∈ (reportMaps record entries).changed ↔
      ChangedAt (.map record) (.map entries) path (keys.foldl Path.join path, change) keys := by
  rw [← reportValue_map_map, mem_changed_reportValue hentries path]
  simp only [Option.mem_some_iff, exists_eq_left']

theorem mem_modified_compareValue {v : Value} (hv : v.WellFormed) (above key : Text)
    (old : Option Value) {change : Text × Change} :
    change ∈ (compareValue none (Path.join above key) key old v).modified ↔
      ∃ o ∈ old, ∃ keys, ChangedAt o v (Path.join above key) change keys := by
  rw [(tells_compareValue above key old v).modified, Report.under, List.map_map, List.mem_map]
  constructor
  · rintro ⟨⟨keys, change⟩, hplace, rfl⟩
    obtain ⟨o, ho, hchanged⟩ := (mem_changed_reportValue hv (Path.join above key)).mp hplace
    exact ⟨o, ho, keys, hchanged⟩
  · rintro ⟨o, ho, keys, hchanged⟩
    obtain ⟨x, n, -, -, -, -, rfl⟩ := id hchanged
    exact ⟨(keys, _), (mem_changed_reportValue hv _).mpr ⟨o, ho, hchanged⟩, rfl⟩

/-- Between two maps the changes are found at the places where both sides have values. -/
theorem mem_modified_compareMaps {path : Text} {record entries : Entries Value}
    (hentries : (Value.map entries).WellFormed) {change : Text × Change} :
    change ∈ (compareMaps none path record entries).modified ↔
      ∃ keys, ChangedAt (.map record) (.map entries) path change keys := by
  have h := @mem_modified_compareValue (.map entries) hentries [] path (some (.map record)) change
  simp only [compareValue_map_map, Option.mem_some_iff, exists_eq_left'] at h
  exact h

/-! ## Removed -/

/-- A leaf of the record to which the way leaves the extracted maps. -/
def RemovedAt (old new : Value) (path p : Text) (keys : List Text) : Prop :=
  (∃ x, LeafAt old path p x keys) ∧ Lost new keys

theorem removedAt_map_cons {record entries : Entries Value} {path p key : Text}
    {more : List Text} :
    RemovedAt (.map record) (.map entries) path p (key :: more) ↔
      ∃ o ∈ Entries.get? record key, (∃ x, LeafAt o (Path.join path key) p x more) ∧
        ∀ n ∈ Entries.get? entries key, Lost n more := by
  simp only [RemovedAt, leafAt_map_cons, lost_map_cons]
  constructor
  · rintro ⟨⟨x, o, ho, hleaf⟩, hlost⟩
    exact ⟨o, ho, ⟨x, hleaf⟩, hlost⟩
  · rintro ⟨o, ho, ⟨x, hleaf⟩, hlost⟩
    exact ⟨⟨x, o, ho, hleaf⟩, hlost⟩

theorem not_removedAt_of_not_maps {old new : Value} (h : ¬ (old.isMap = true ∧ new.isMap = true))
    (path p : Text) (keys : List Text) : ¬ RemovedAt old new path p keys := by
  rintro ⟨⟨x, hleaf⟩, hlost⟩
  rcases Classical.not_and_iff_not_or_not.mp h with hmap | hmap
  · rw [leafAt_of_isLeaf (isLeaf_of_not_map (Bool.eq_false_iff.mpr hmap))] at hleaf
    rw [hleaf.1] at hlost
    exact not_lost_nil new hlost
  · exact not_lost_of_not_map (Bool.eq_false_iff.mpr hmap) keys hlost

theorem removedAt_of_mem_missingWays {path : Text} {record entries : Entries Value}
    (hrecord : (Value.map record).WellFormed) {keys : List Text}
    (h : keys ∈ missingWays record entries) :
    RemovedAt (.map record) (.map entries) path (keys.foldl Path.join path) keys := by
  obtain ⟨entry, hentry, hnone, ⟨more, x⟩, hplace, rfl⟩ := mem_missingWays.mp h
  obtain ⟨hget, hleaf⟩ := (mem_leafPlaces_iff (wellFormed_of_mem hrecord.2 hentry)).mp hplace
  refine removedAt_map_cons.mpr
    ⟨entry.2, Entries.get?_of_mem hrecord.1 hentry, ⟨x, hget, hleaf, rfl⟩, fun n hn => ?_⟩
  rw [Entries.contains, hn] at hnone
  exact absurd hnone (by simp)

theorem mem_removed_reportMaps_of_forall {path : Text} {record entries : Entries Value}
    (hrecord : (Value.map record).WellFormed) (hentries : Entries.NodupKeys entries)
    (h : ∀ entry ∈ entries, ∀ keys,
      keys ∈ (reportValue (Entries.get? record entry.1) entry.2).removed ↔
        ∃ o ∈ Entries.get? record entry.1, RemovedAt o entry.2 (Path.join path entry.1)
          (keys.foldl Path.join (Path.join path entry.1)) keys) {keys : List Text} :
    keys ∈ (reportMaps record entries).removed ↔
      RemovedAt (.map record) (.map entries) path (keys.foldl Path.join path) keys := by
  rw [removed_reportMaps, List.mem_append, List.mem_flatMap]
  constructor
  · rintro (⟨entry, hentry, hmem⟩ | hmissing)
    · obtain ⟨more, hplace, rfl⟩ := List.mem_map.mp hmem
      obtain ⟨o, ho, hleaf, hlost⟩ := (h entry hentry more).mp hplace
      refine removedAt_map_cons.mpr ⟨o, ho, hleaf, ?_⟩
      rw [Entries.get?_of_mem hentries hentry]
      rintro n ⟨⟩
      exact hlost
    · exact removedAt_of_mem_missingWays hrecord hmissing
  · intro hremoved
    cases keys with
    | nil => exact absurd hremoved.2 (not_lost_nil _)
    | cons key more =>
        obtain ⟨o, ho, ⟨x, hleaf⟩, hlost⟩ := removedAt_map_cons.mp hremoved
        have hrecordEntry := Entries.mem_of_get? ho
        cases hn : Entries.get? entries key with
        | none =>
            have hplace := (mem_leafPlaces_iff (wellFormed_of_mem hrecord.2 hrecordEntry)).mpr
              ⟨hleaf.1, hleaf.2.1⟩
            exact .inr (mem_missingWays.mpr
              ⟨(key, o), hrecordEntry, by simp [Entries.contains, hn], (more, x), hplace, rfl⟩)
        | some n =>
            have hentry := Entries.mem_of_get? hn
            exact .inl ⟨(key, n), hentry, List.mem_map.mpr
              ⟨more, (h (key, n) hentry more).mpr ⟨o, ho, ⟨x, hleaf⟩, hlost n hn⟩, rfl⟩⟩

theorem mem_removed_reportValue {old : Option Value} (hold : ∀ o ∈ old, o.WellFormed) {v : Value}
    (hv : v.WellFormed) (path : Text) {keys : List Text} :
    keys ∈ (reportValue old v).removed ↔
      ∃ o ∈ old, RemovedAt o v path (keys.foldl Path.join path) keys := by
  induction old, v using compareInduction generalizing path keys with
  | fresh v => simp [reportValue_none]
  | whole o v hmaps =>
      rw [reportValue_of_not_maps hmaps, changedHere]
      refine iff_of_false (by split <;> exact List.not_mem_nil) ?_
      rintro ⟨o, ⟨⟩, hat⟩
      exact not_removedAt_of_not_maps hmaps _ _ _ hat
  | maps record entries ih =>
      have hrecord := hold (.map record) rfl
      simp only [reportValue_map_map, Option.mem_some_iff, exists_eq_left']
      exact mem_removed_reportMaps_of_forall hrecord hv.1 fun entry hentry keys =>
        ih entry hentry (fun o ho => wellFormed_of_get? hrecord.2 ho)
          (wellFormed_of_mem hv.2 hentry) _

theorem mem_removed_reportMaps {record entries : Entries Value}
    (hrecord : (Value.map record).WellFormed) (hentries : (Value.map entries).WellFormed)
    (path : Text) {keys : List Text} :
    keys ∈ (reportMaps record entries).removed ↔
      RemovedAt (.map record) (.map entries) path (keys.foldl Path.join path) keys := by
  have hold : ∀ o ∈ some (Value.map record), o.WellFormed := by
    rintro o ⟨⟩
    exact hrecord
  rw [← reportValue_map_map, mem_removed_reportValue hold hentries path]
  simp only [Option.mem_some_iff, exists_eq_left']

theorem mem_removed_compareValue {v : Value} (hv : v.WellFormed) (above key : Text)
    {old : Option Value} (hold : ∀ o ∈ old, o.WellFormed) {p : Text} :
    p ∈ (compareValue none (Path.join above key) key old v).removed ↔
      ∃ o ∈ old, ∃ keys, RemovedAt o v (Path.join above key) p keys := by
  rw [(tells_compareValue above key old v).removed, Report.under, List.map_map, List.mem_map]
  constructor
  · rintro ⟨keys, hway, rfl⟩
    obtain ⟨o, ho, hremoved⟩ := (mem_removed_reportValue hold hv (Path.join above key)).mp hway
    exact ⟨o, ho, keys, hremoved⟩
  · rintro ⟨o, ho, keys, hremoved⟩
    obtain ⟨⟨x, -, -, rfl⟩, -⟩ := id hremoved
    exact ⟨keys, (mem_removed_reportValue hold hv _).mpr ⟨o, ho, hremoved⟩, rfl⟩

/-- Between two maps the removed paths lead to leaves of the record, out of the extracted maps. -/
theorem mem_removed_compareMaps {path p : Text} {record entries : Entries Value}
    (hrecord : (Value.map record).WellFormed) (hentries : (Value.map entries).WellFormed) :
    p ∈ (compareMaps none path record entries).removed ↔
      ∃ keys, RemovedAt (.map record) (.map entries) path p keys := by
  have hold : ∀ o ∈ some (Value.map record), o.WellFormed := by
    rintro o ⟨⟩
    exact hrecord
  have h := mem_removed_compareValue hentries [] path hold (p := p)
  simp only [compareValue_map_map, Option.mem_some_iff, exists_eq_left'] at h
  exact h

/-! ## Added -/

/-- A leaf of the extracted side to which the way leaves the record's maps. -/
def AddedAt (old new : Value) (path p : Text) (x : Value) (keys : List Text) : Prop :=
  ∃ n, LeafAt new path p n keys ∧ x = n.plain ∧ Lost old keys

theorem mem_added_reportMaps_of_forall {path : Text} {record entries : Entries Value}
    (hentries : Entries.NodupKeys entries) {x : Value}
    (h : ∀ entry ∈ entries, ∀ keys,
      (keys, x) ∈ (reportValue (Entries.get? record entry.1) entry.2).added ↔
        LeafAt entry.2 (Path.join path entry.1) (keys.foldl Path.join (Path.join path entry.1)) x
          keys ∧ ∀ o ∈ Entries.get? record entry.1, Lost o keys) {keys : List Text} :
    (keys, x) ∈ (reportMaps record entries).added ↔
      LeafAt (.map entries) path (keys.foldl Path.join path) x keys ∧ Lost (.map record) keys := by
  rw [added_reportMaps, List.mem_flatMap]
  constructor
  · rintro ⟨entry, hentry, hmem⟩
    obtain ⟨⟨more, x⟩, hplace, heq⟩ := List.mem_map.mp hmem
    cases heq
    obtain ⟨hleaf, hlost⟩ := (h entry hentry more).mp hplace
    exact ⟨leafAt_map_cons.mpr ⟨entry.2, Entries.get?_of_mem hentries hentry, hleaf⟩,
      lost_map_cons.mpr hlost⟩
  · rintro ⟨hleaf, hlost⟩
    cases keys with
    | nil => exact absurd hlost (not_lost_nil _)
    | cons key more =>
        obtain ⟨n, hn, hleaf⟩ := leafAt_map_cons.mp hleaf
        have hentry := Entries.mem_of_get? hn
        exact ⟨(key, n), hentry, List.mem_map.mpr
          ⟨(more, x), (h (key, n) hentry more).mpr ⟨hleaf, lost_map_cons.mp hlost⟩, rfl⟩⟩

theorem mem_added_reportValue {old : Option Value} {v : Value} (hv : v.WellFormed) (path : Text)
    {keys : List Text} {x : Value} :
    (keys, x) ∈ (reportValue old v).added ↔
      LeafAt v path (keys.foldl Path.join path) x keys ∧ ∀ o ∈ old, Lost o keys := by
  induction old, v using compareInduction generalizing path keys with
  | fresh v => simp [reportValue_none, mem_leafPlaces_iff hv, LeafAt]
  | whole o v hmaps =>
      rw [reportValue_of_not_maps hmaps, changedHere]
      refine iff_of_false (by split <;> exact List.not_mem_nil) ?_
      rintro ⟨hleaf, hlost⟩
      rcases Classical.not_and_iff_not_or_not.mp hmaps with hmap | hmap
      · exact not_lost_of_not_map (Bool.eq_false_iff.mpr hmap) keys (hlost o rfl)
      · rw [leafAt_of_isLeaf (isLeaf_of_not_map (Bool.eq_false_iff.mpr hmap))] at hleaf
        rw [hleaf.1] at hlost
        exact not_lost_nil o (hlost o rfl)
  | maps record entries ih =>
      simp only [reportValue_map_map, Option.mem_some_iff, forall_eq']
      exact mem_added_reportMaps_of_forall hv.1 fun entry hentry keys =>
        ih entry hentry (wellFormed_of_mem hv.2 hentry) _

theorem mem_added_reportMaps {record entries : Entries Value}
    (hentries : (Value.map entries).WellFormed) (path : Text) {keys : List Text} {x : Value} :
    (keys, x) ∈ (reportMaps record entries).added ↔
      LeafAt (.map entries) path (keys.foldl Path.join path) x keys ∧ Lost (.map record) keys := by
  rw [← reportValue_map_map, mem_added_reportValue hentries path]
  simp only [Option.mem_some_iff, forall_eq']

theorem mem_added_compareValue {v : Value} (hv : v.WellFormed) (above key : Text)
    (old : Option Value) {p : Text} {x : Value} :
    (p, x) ∈ leavesBelow above (compareValue none (Path.join above key) key old v).added ↔
      ∃ keys y, LeafAt v (Path.join above key) p y keys ∧ x = y.plain ∧
        ∀ o ∈ old, Lost o keys := by
  rw [(tells_compareValue above key old v).added, Report.under, List.map_map, List.mem_map]
  constructor
  · rintro ⟨⟨keys, y⟩, hplace, heq⟩
    cases heq
    obtain ⟨hleaf, hlost⟩ := (mem_added_reportValue hv (Path.join above key)).mp hplace
    exact ⟨keys, y, hleaf, rfl, hlost⟩
  · rintro ⟨keys, y, hleaf, rfl, hlost⟩
    obtain ⟨-, -, rfl⟩ := id hleaf
    exact ⟨(keys, y), (mem_added_reportValue hv _).mpr ⟨hleaf, hlost⟩, rfl⟩

/-- Between two maps the leaves of what was added are leaves of the extracted side, out of the
record's maps. -/
theorem mem_added_compareMaps {path p : Text} {x : Value} {record entries : Entries Value}
    (hentries : (Value.map entries).WellFormed) :
    (p, x) ∈ leavesBelow path (compareMaps none path record entries).added ↔
      ∃ keys, AddedAt (.map record) (.map entries) path p x keys := by
  have h := mem_added_compareValue hentries [] path (some (.map record)) (p := p) (x := x)
  simp only [compareValue_map_map, leavesBelow_added_under, Option.mem_some_iff, forall_eq'] at h
  exact h

theorem nodup_removed_between {record entries : Entries Value}
    (hrecord : (Value.map record).WellFormed) (hnamed : (Value.map record).Named)
    (hentries : (Value.map entries).WellFormed) :
    (between none (.map record) (.map entries)).removed.Nodup := by
  rw [between_map_map, ofFindings, (tells_compareMaps [] record entries).removed]
  refine Path.nodup_map_foldl_join (nodup_removed_reportMaps hrecord hentries) fun way hway => ?_
  obtain ⟨⟨x, hget, -⟩, hlost⟩ := (mem_removed_reportMaps hrecord hentries []).mp hway
  refine hnamed.split_foldl_join ?_ hget
  rintro rfl
  exact Value.not_lost_nil _ hlost

end Difference

end InverseTemplate
