/-
# Replaying a difference

A difference tells what a merge would do: if the new values of its changes are written into a record
and then what it lists as added is merged, the record is what merging the extracted data would have
made of it.

The two are compared key by key.  A change at the end of a way is written at the rest of the way
below its first key (`put`), so what the changes make of a map under one key, they make of the value
there; and under one key the merge sees that value and what was added there.  So it is one statement
of an extracted value and of what the record has in its place (`Replays`), proved by induction
along the comparison.
-/
import InverseTemplate.Proofs.Difference.Disjoint
import InverseTemplate.Proofs.Merge.Plain

namespace InverseTemplate

namespace Value

theorem plainEntries_writeAll (m : Entries Value) {writes : List (List Text × Value)}
    (h : ∀ write ∈ writes, write.2.plain = write.2) :
    plainEntries (writeAll m writes) = writeAll (plainEntries m) writes := by
  induction writes generalizing m with
  | nil => rfl
  | cons write rest ih =>
      obtain ⟨hfirst, hrest⟩ := List.forall_mem_cons.mp h
      rw [writeAll, List.foldl_cons, ← writeAll, ih _ hrest, Entries.plainEntries_setPath, hfirst]
      rfl

end Value

namespace Merge

open Value

/-! ## Merging where not two maps meet -/

theorem mergeValue_of_not_maps {v : Value} (hv : v.WellFormed) (path : Text)
    {current : Option Value} (h : ∀ o ∈ current, ¬ (o.isMap = true ∧ v.isMap = true)) :
    mergeValue .replace none path current v = some v.plain := by
  cases hmap : v.isMap with
  | false => exact mergeValue_of_not_map hmap
  | true =>
      -- a map is built up from nothing, as if nothing had been there
      obtain ⟨entries, rfl⟩ := exists_map_of_isMap hmap
      have hcurrent : ∀ o ∈ current, o.isMap = false := fun o ho =>
        Bool.eq_false_iff.mpr fun hold => h o ho ⟨hold, rfl⟩
      have hnothing : mergeValue .replace none path none (.map entries) =
          some (Value.map entries).plain := mergeValue_of_nothing hv path
      rw [mergeValue_map_of_not_map (by simp)] at hnothing
      rw [mergeValue_map_of_not_map hcurrent, hnothing]

end Merge

namespace Difference

open Value Merge

/-! ## The replay of one value -/

/-- The new values of the changes, each at its way. -/
def Report.writes (report : Report) : List (List Text × Value) :=
  report.changed.map fun place => (place.1, place.2.after)

theorem keys_added_compareValue (path key : Text) (old : Option Value) (v : Value) :
    (Entries.keys (compareValue none path key old v).added).Sublist [key] := by
  induction old, v using compareInduction with
  | fresh v =>
      rw [compareValue_none_none]
      exact List.Sublist.refl _
  | whole o v hmaps =>
      rw [compareValue_of_not_maps hmaps]
      split <;> exact List.nil_sublist _
  | maps record entries _ =>
      rw [compareValue_map_map, Findings.under]
      dsimp only
      split
      · exact List.nil_sublist _
      · exact List.Sublist.refl _

theorem writes_reportMaps (record entries : Entries Value) :
    (reportMaps record entries).writes = entries.flatMap fun entry =>
      (reportValue (Entries.get? record entry.1) entry.2).writes.map fun write =>
        (entry.1 :: write.1, write.2) := by
  simp only [Report.writes, changed_reportMaps, reportEntry, Report.under, List.map_flatMap,
    List.map_map, Function.comp_def]

theorem ne_nil_of_mem_writes_reportMaps {record entries : Entries Value} :
    ∀ write ∈ (reportMaps record entries).writes, write.1 ≠ [] := by
  intro write hwrite
  rw [writes_reportMaps] at hwrite
  obtain ⟨entry, -, hwrite⟩ := List.mem_flatMap.mp hwrite
  obtain ⟨write, -, rfl⟩ := List.mem_map.mp hwrite
  exact List.cons_ne_nil _ _

/-- Under one key: the changes and the addition make of the record's value what merging the
extracted one makes of it. -/
def Replays (path key : Text) (old : Option Value) (v : Value) : Prop :=
  Agree
    (merged .replace none path (putAll (old.map plain) (reportValue old v).writes)
      (Entries.get? (compareValue none path key old v).added key))
    (merged .replace none path (old.map plain) (some v))

theorem replays_none {v : Value} (hv : v.WellFormed) (path key : Text) :
    Replays path key none v := by
  have hplain := wellFormed_plain v hv
  have hadded : Entries.get? [(key, v.plain)] key = some v.plain := by simp [Entries.get?]
  rw [Replays, compareValue_none_none, hadded, reportValue_none]
  show Agree (merged .replace none path none (some v.plain))
    (merged .replace none path none (some v))
  rw [merged_of_walked rfl, merged_of_walked rfl, mergeValue_of_not_maps hplain path (by simp),
    mergeValue_of_not_maps hv path (by simp), plain_plain]
  exact equal_refl _ hplain

theorem replays_of_not_maps {o v : Value} (hv : v.WellFormed)
    (hmaps : ¬ (o.isMap = true ∧ v.isMap = true)) (path key : Text) :
    Replays path key (some o) v := by
  have hmerged : merged .replace none path (some o.plain) (some v) = some v.plain := by
    have hplain : ∀ c ∈ some o.plain, ¬ (c.isMap = true ∧ v.isMap = true) := by
      rintro c ⟨⟩
      rwa [isMap_plain]
    rw [merged_of_walked rfl, mergeValue_of_not_maps hv path hplain, Option.some_or]
  rw [Replays, compareValue_of_not_maps hmaps, reportValue_of_not_maps hmaps, changedHere,
    Option.map_some, hmerged]
  cases heq : Value.equal o v with
  | true =>
      show Value.equal o.plain v.plain = true
      rw [plain_equal, equal_plain, heq]
  | false => exact equal_refl _ (wellFormed_plain v hv)

/-- Two maps are merged key by key, and so are the changes and the additions. -/
theorem equal_mergeEntries_writeAll {record entries : Entries Value}
    (hrecord : (Value.map record).WellFormed) (hentries : Entries.NodupKeys entries) (path : Text)
    (h : ∀ entry ∈ entries,
      Replays (Path.join path entry.1) entry.1 (Entries.get? record entry.1) entry.2) :
    equal
      (.map (mergeEntries .replace none path
        (writeAll (plainEntries record) (reportMaps record entries).writes)
        (compareMaps none path record entries).added))
      (.map (mergeEntries .replace none path (plainEntries record) entries)) = true := by
  have hplain := wellFormed_plain _ hrecord
  have hkeys : ∀ entry, (Entries.keys (compareEntry none path record entry).added).Sublist
      [entry.1] := fun entry => keys_added_compareValue ..
  rw [added_compareMaps, writes_reportMaps, equal_map_iff
    (nodupKeys_mergeEntries (nodupKeys_writeAll hplain.1 _) path _)]
  intro key
  rw [get?_mergeEntries (Entries.nodupKeys_flatMap hentries hkeys), get?_mergeEntries hentries,
    Entries.get?_flatMap hentries hkeys, get?_writeAll_flatMap hentries, Entries.get?_plainEntries]
  cases hv : Entries.get? entries key with
  | none =>
      refine agree_refl fun w hw => ?_
      obtain ⟨o, ho, rfl⟩ := Option.map_eq_some_iff.mp hw
      exact wellFormed_plain o (wellFormed_of_get? hrecord.2 ho)
  | some v => exact h (key, v) (Entries.mem_of_get? hv)

theorem replays {old : Option Value} (hold : ∀ o ∈ old, o.WellFormed) {v : Value}
    (hv : v.WellFormed) (path key : Text) : Replays path key old v := by
  induction old, v using compareInduction generalizing path key with
  | fresh v => exact replays_none hv path key
  | whole o v hmaps => exact replays_of_not_maps hv hmaps path key
  | maps record entries ih =>
      have hrecord := hold (.map record) rfl
      have hmerge := equal_mergeEntries_writeAll hrecord hv.1 path fun entry hentry =>
        ih entry hentry (fun o ho => wellFormed_of_get? hrecord.2 ho)
          (wellFormed_of_mem hv.2 hentry) _ _
      rw [Replays, compareValue_map_map, reportValue_map_map, Option.map_some, plain,
        putAll_map ne_nil_of_mem_writes_reportMaps, Findings.under]
      dsimp only
      cases hadded : (compareMaps none path record entries).added with
      | nil =>
          rw [hadded, mergeEntries] at hmerge
          exact hmerge
      | cons entry rest =>
          rw [hadded] at hmerge
          simp only [List.isEmpty_cons, Bool.false_eq_true, if_false, Entries.get?, if_true]
          rw [merged_of_walked rfl, merged_of_walked rfl, mergeValue, mergeValue]
          exact hmerge

/-! ## The replay of a difference -/

/-- Writes the new values of the changes into a map. -/
def writeModified (d : Difference) (m : Entries Value) : Entries Value :=
  writeAll m (d.modified.map fun change => (Path.split change.1, change.2.after))

variable {record entries : Entries Value}

theorem plain_of_mem_writes_reportMaps (hentries : (Value.map entries).WellFormed) :
    ∀ write ∈ (reportMaps record entries).writes, write.2.plain = write.2 := by
  intro write hwrite
  obtain ⟨⟨way, change⟩, hplace, rfl⟩ := List.mem_map.mp hwrite
  obtain ⟨o, n, -, -, -, -, heq⟩ := (mem_changed_reportMaps hentries []).mp hplace
  rw [(Prod.mk.inj heq).2]
  exact plain_plain n

theorem split_of_mem_changed_reportMaps (hentries : (Value.map entries).WellFormed)
    (hnamed : (Value.map record).Named) : ∀ place ∈ (reportMaps record entries).changed,
    Path.split (place.1.foldl Path.join []) = place.1 := by
  intro place hplace
  have hchanged := (mem_changed_reportMaps hentries []).mp hplace
  have hreported : Reported (.map record) (.map entries) (place.1.foldl Path.join []) place.1 :=
    .inr (.inl ⟨_, hchanged⟩)
  obtain ⟨o, n, ho, -⟩ := hchanged
  exact hnamed.split_foldl_join hreported.exists_getPath?.1 ho

theorem modified_between (hrecord : (Value.map record).WellFormed)
    (hentries : (Value.map entries).WellFormed) (hnamed : (Value.map record).Named) :
    (between none (.map record) (.map entries)).modified =
      (reportMaps record entries).changed.map fun place =>
        (place.1.foldl Path.join [], place.2) := by
  have hsplit := split_of_mem_changed_reportMaps hentries hnamed
  have hkeys := Path.nodup_map_foldl_join (nodup_changed_reportMaps hrecord hentries)
    (List.forall_mem_map.mpr hsplit)
  rw [List.map_map] at hkeys
  rw [between_map_map, ofFindings, (tells_compareMaps [] record entries).modified]
  refine Entries.ofWrites_of_nodupKeys ?_
  rw [Entries.NodupKeys, Entries.keys, List.map_map]
  exact hkeys

theorem writeModified_between (hrecord : (Value.map record).WellFormed)
    (hentries : (Value.map entries).WellFormed) (hnamed : (Value.map record).Named)
    (m : Entries Value) :
    (between none (.map record) (.map entries)).writeModified m =
      writeAll m (reportMaps record entries).writes := by
  have hsplit := split_of_mem_changed_reportMaps hentries hnamed
  rw [writeModified, modified_between hrecord hentries hnamed, List.map_map, Report.writes]
  refine congrArg (writeAll m) (List.map_congr_left fun place hplace => ?_)
  exact congrArg (·, place.2.after) (hsplit place hplace)

/-- Replaying a difference gives what the merge gives. -/
theorem equal_replay (hrecord : (Value.map record).WellFormed)
    (hentries : (Value.map entries).WellFormed) (hnamed : (Value.map record).Named) :
    let d := between none (.map record) (.map entries)
    equal
      (applyExtracted .replace none (.map (d.writeModified (plainEntries record))) (.map d.added))
      (applyExtracted .replace none (.map record) (.map entries)) = true := by
  intro d
  have hadded : d.added = (compareMaps none [] record entries).added := by
    rw [show d = _ from between_map_map ..]
    rfl
  have hmerge := equal_mergeEntries_writeAll hrecord hentries.1 [] fun entry hentry =>
    replays (fun o ho => wellFormed_of_get? hrecord.2 ho) (wellFormed_of_mem hentries.2 hentry) _ _
  rw [applyExtracted, applyExtracted, hadded, writeModified_between hrecord hentries hnamed,
    plainEntries_writeAll _ (plain_of_mem_writes_reportMaps hentries), plainEntries_plainEntries]
  exact hmerge

/-- A number, a map in the place of a number and a number in the place of a map are changed, and a
map below is added to. -/
theorem equal_replay_kinds :
    let record := [(text "a", Value.map [(text "b", .int 1), (text "c", .map [(text "d", .null)])]),
      (text "e", .int 2)]
    let entries := [(text "e", Value.map [(text "h", .map [])]),
      (text "a", .map [(text "c", .int 3), (text "f", .map [(text "g", .int 4)]),
        (text "b", .int 5)])]
    let d := between none (.map record) (.map entries)
    (Value.map record).WellFormed ∧ (Value.map entries).WellFormed ∧ (Value.map record).Named ∧
      Entries.keys d.modified = [text "e", text "a.c", text "a.b"] ∧
      d.addedPaths = [text "a.f.g"] ∧
      equal
        (applyExtracted .replace none (.map (d.writeModified (plainEntries record))) (.map d.added))
        (applyExtracted .replace none (.map record) (.map entries)) = true := by
  intro record entries d
  have hrecord : (Value.map record).WellFormed :=
    ⟨show [text "a", text "e"].Nodup by decide +kernel,
      ⟨show [text "b", text "c"].Nodup by decide +kernel, trivial,
        ⟨List.pairwise_singleton _ _, trivial, trivial⟩, trivial⟩, trivial, trivial⟩
  have hentries : (Value.map entries).WellFormed :=
    ⟨show [text "e", text "a"].Nodup by decide +kernel,
      ⟨List.pairwise_singleton _ _, ⟨List.nodup_nil, trivial⟩, trivial⟩,
      ⟨show [text "c", text "f", text "b"].Nodup by decide +kernel, trivial,
        ⟨List.pairwise_singleton _ _, trivial, trivial⟩, trivial, trivial⟩, trivial⟩
  have hnamed : (Value.map record).Named :=
    ⟨by decide +kernel, ⟨by decide +kernel, trivial, by decide +kernel,
      ⟨by decide +kernel, trivial, trivial⟩, trivial⟩, by decide +kernel, trivial, trivial⟩
  exact ⟨hrecord, hentries, hnamed, by decide +kernel, by decide +kernel,
    equal_replay hrecord hentries hnamed⟩

end Difference

end InverseTemplate
