/-
# Merging and the plain form

A merge takes values over in their plain form.  So it does not show in the outcome how the
extracted data is spelled (`mergeEntries_plainEntries`), spelling the record plainly may be put
off until after the merge (`plainEntries_mergeEntries`), and where the record has nothing the
plain form of what was extracted is left (`mergeValue_of_nothing`).
-/
import InverseTemplate.Proofs.Merge.Places

namespace InverseTemplate

namespace Merge

open Value

variable {policy : ArrayMerge} {selectors : Option (List Text)}

/-! ## How the record is spelled -/

theorem plainItems_combine (base items : List Value) :
    plainItems (policy.combine base items) = policy.combine base items := by
  cases policy <;> simp [ArrayMerge.combine, plainItems_append]

theorem plain_overlay (old : Option Value) (v : Value) :
    (overlay policy old v).plain = overlay policy old v := by
  unfold overlay
  split
  · exact congrArg Value.list (plainItems_combine _ _)
  · exact plain_plain v

theorem plainEntries_mergeEntries_of_forall {above : Text} {target entries : Entries Value}
    (h : ∀ entry ∈ entries, ∀ path current,
      mergeValue policy selectors path (current.map plain) entry.2 =
        (mergeValue policy selectors path current entry.2).map plain) :
    mergeEntries policy selectors above (plainEntries target) entries =
      plainEntries (mergeEntries policy selectors above target entries) := by
  induction entries generalizing target with
  | nil => rw [mergeEntries, mergeEntries]
  | cons entry rest ih =>
      obtain ⟨key, v⟩ := entry
      obtain ⟨hfirst, hrest⟩ := List.forall_mem_cons.mp h
      rw [mergeEntries, mergeEntries, Entries.get?_plainEntries, hfirst]
      split
      · cases mergeValue policy selectors (Path.join above key) (Entries.get? target key) v with
        | none => exact ih hrest
        | some w =>
            dsimp only [Option.map_some]
            rw [← Entries.plainEntries_set]
            exact ih hrest
      · exact ih hrest

theorem mergeValue_plain (v : Value) (path : Text) (current : Option Value) :
    mergeValue policy selectors path (current.map plain) v =
      (mergeValue policy selectors path current v).map plain := by
  induction v using mapInduction generalizing path current with
  | whole v hwhole =>
      rw [mergeValue_of_whole hwhole, mergeValue_of_whole hwhole, overlay_plain, Option.map_some,
        plain_overlay]
  | map entries ih =>
      have hentries : ∀ target, mergeEntries policy selectors path (plainEntries target) entries =
          plainEntries (mergeEntries policy selectors path target entries) :=
        fun target => plainEntries_mergeEntries_of_forall ih
      rcases exists_map_or_forall current with ⟨below, rfl⟩ | hcurrent
      · rw [mergeValue, Option.map_some, Option.map_some, plain, mergeValue, hentries, plain]
      · have hlanded : plainEntries (mergeEntries policy selectors path [] entries) =
            mergeEntries policy selectors path [] entries := (hentries []).symm
        rw [mergeValue_map_of_not_map (forall_isMap_plain.mpr hcurrent),
          mergeValue_map_of_not_map hcurrent]
        split
        · rw [Option.map_some, plain, hlanded]
        · rfl

theorem plainEntries_mergeEntries (above : Text) (target entries : Entries Value) :
    mergeEntries policy selectors above (plainEntries target) entries =
      plainEntries (mergeEntries policy selectors above target entries) :=
  plainEntries_mergeEntries_of_forall fun _ _ => mergeValue_plain _

/-! ## How the extracted data is spelled -/

theorem overlay_of_plain (old : Option Value) (v : Value) :
    overlay policy old v.plain = overlay policy old v := by
  unfold overlay
  rw [items?_plain, plain_plain]
  cases v.items? with
  | none => rfl
  | some items =>
      cases old.bind items? with
      | none => rfl
      | some base => cases policy <;> simp [ArrayMerge.combine]

theorem mergeEntries_plainEntries_of_forall {above : Text} {target entries : Entries Value}
    (h : ∀ entry ∈ entries, ∀ path current,
      mergeValue policy selectors path current entry.2.plain =
        mergeValue policy selectors path current entry.2) :
    mergeEntries policy selectors above target (plainEntries entries) =
      mergeEntries policy selectors above target entries := by
  induction entries generalizing target with
  | nil => rfl
  | cons entry rest ih =>
      obtain ⟨key, v⟩ := entry
      obtain ⟨hfirst, hrest⟩ := List.forall_mem_cons.mp h
      rw [plainEntries, mergeEntries, mergeEntries, hfirst]
      split
      · cases mergeValue policy selectors (Path.join above key) (Entries.get? target key) v with
        | none => exact ih hrest
        | some w => exact ih hrest
      · exact ih hrest

theorem mergeValue_of_plain (v : Value) (path : Text) (current : Option Value) :
    mergeValue policy selectors path current v.plain =
      mergeValue policy selectors path current v := by
  induction v using mapInduction generalizing path current with
  | whole v hwhole =>
      rw [mergeValue_of_whole hwhole, mergeValue_of_whole ((isMap_plain v).trans hwhole),
        overlay_of_plain]
  | map entries ih =>
      have hentries : ∀ target, mergeEntries policy selectors path target (plainEntries entries) =
          mergeEntries policy selectors path target entries :=
        fun target => mergeEntries_plainEntries_of_forall ih
      rw [plain]
      rcases exists_map_or_forall current with ⟨below, rfl⟩ | hcurrent
      · rw [mergeValue, mergeValue, hentries]
      · rw [mergeValue_map_of_not_map hcurrent, mergeValue_map_of_not_map hcurrent, hentries]

theorem mergeEntries_plainEntries (above : Text) (target entries : Entries Value) :
    mergeEntries policy selectors above target (plainEntries entries) =
      mergeEntries policy selectors above target entries :=
  mergeEntries_plainEntries_of_forall fun _ _ => mergeValue_of_plain _

theorem merged_of_plain (path : Text) (current : Option Value) (v : Value) :
    merged policy selectors path current (some v.plain) =
      merged policy selectors path current (some v) := by
  rw [merged, merged, mergeValue_of_plain]

/-! ## Merging into nothing -/

theorem overlay_of_nothing (v : Value) : overlay policy none v = v.plain :=
  overlay_of_not_arrays (.inr rfl)

theorem merged_of_whole {v : Value} (h : v.isMap = false) (path : Text) (current : Option Value) :
    merged policy none path current (some v) = some (overlay policy current v) := by
  rw [merged_of_walked rfl, mergeValue_of_whole h, Option.some_or]

theorem merged_map_map (path : Text) (record entries : Entries Value) :
    merged policy none path (some (.map record)) (some (.map entries)) =
      some (.map (mergeEntries policy none path record entries)) := by
  rw [merged_of_walked rfl, mergeValue, Option.some_or]

theorem merged_map_of_not_map {current : Option Value} (h : ∀ c ∈ current, c.isMap = false)
    (path : Text) (entries : Entries Value) :
    merged policy none path current (some (.map entries)) =
      merged policy none path (some (.map [])) (some (.map entries)) := by
  rw [merged_map_map, merged_of_walked rfl, mergeValue_map_of_not_map h,
    if_pos (.inr (Path.covered_none path)), Option.some_or]

theorem mergeEntries_eq_append {path : Text} {target entries : Entries Value}
    (hnodup : Entries.NodupKeys (target ++ entries))
    (h : ∀ entry ∈ entries, ∀ path,
      mergeValue policy none path none entry.2 = some entry.2.plain) :
    mergeEntries policy none path target entries = target ++ plainEntries entries := by
  induction entries generalizing target with
  | nil => rw [mergeEntries]; exact (List.append_nil _).symm
  | cons entry rest ih =>
      obtain ⟨key, v⟩ := entry
      obtain ⟨hfirst, hrest⟩ := List.forall_mem_cons.mp h
      have hnone := Entries.get?_eq_none_of_append hnodup
      have hhere : mergeValue policy none (Path.join path key) (Entries.get? target key) v =
          some v.plain := by
        rw [hnone]
        exact hfirst _
      rw [mergeEntries_cons_of_some rfl hhere, Entries.set_of_get?_eq_none hnone,
        ih (hnodup.concat_append _) hrest, plainEntries, List.append_assoc]
      rfl

theorem mergeValue_of_nothing {v : Value} (hv : v.WellFormed) (path : Text) :
    mergeValue policy none path none v = some v.plain := by
  induction v using mapInduction generalizing path with
  | whole v hwhole => rw [mergeValue_of_whole hwhole, overlay_of_nothing]
  | map entries ih =>
      have hentries : mergeEntries policy none path [] entries = plainEntries entries :=
        mergeEntries_eq_append hv.1 fun entry hentry path =>
          ih entry hentry (wellFormed_of_mem hv.2 hentry) path
      rw [mergeValue_map_of_not_map (by simp), if_pos (.inr (Path.covered_none path)), hentries,
        plain]

theorem merged_of_nothing {v : Value} (hv : v.WellFormed) (path : Text) :
    merged policy none path none (some v) = some v.plain := by
  rw [merged_of_walked rfl, mergeValue_of_nothing hv, Option.some_or]

end Merge

end InverseTemplate
