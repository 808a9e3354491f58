/-
# Merging what was written path by path

Data that was written one text after another, at paths apart from each other, and a record that has
something at each of these paths: merging the data into the record is the same as writing the texts
into the record.  Every key is there already, so the record alone decides about the order of the
keys, and what is done under one key commutes with a write under another one.

A single write is carried through the merge by induction on its way, and many writes one by one.
-/
import InverseTemplate.Proofs.Extraction.WellFormed
import InverseTemplate.Proofs.Merge.Pathwise

namespace InverseTemplate

namespace Entries

variable {α : Type}

theorem wellFormed_below {m : Entries Value} (h : (Value.map m).WellFormed) (key : Text) :
    (Value.map (below m key)).WellFormed := by
  unfold below
  split
  · next entries hget => exact Value.wellFormed_of_get? h.2 hget
  · exact Value.wellFormed_empty

theorem Open.isMap {m : Entries Value} {key next : Text} {more : List Text}
    (h : Open m (key :: next :: more)) : ∀ v ∈ get? m key, v.isMap = true := by
  intro v hv
  rw [Open, hv] at h
  cases v with
  | map entries => rfl
  | _ => exact h.elim

theorem below_plainEntries (m : Entries Value) (key : Text) :
    below (Value.plainEntries m) key = Value.plainEntries (below m key) := by
  unfold below
  rw [get?_plainEntries]
  cases get? m key with
  | none => rfl
  | some w => cases w <;> rfl

theorem plainEntries_setPath (m : Entries Value) (ks : List Text) (v : Value) :
    Value.plainEntries (setPath m ks v) = setPath (Value.plainEntries m) ks v.plain := by
  induction ks generalizing m with
  | nil => rfl
  | cons key rest ih =>
      cases rest with
      | nil => exact plainEntries_set m key v
      | cons next more =>
          rw [setPath_cons_cons, setPath_cons_cons, plainEntries_set, Value.plain, ih,
            below_plainEntries]

theorem plainEntries_writeTexts (m : Entries Value) (writes : List (List Text × Text)) :
    Value.plainEntries (writeTexts m writes) = writeTexts (Value.plainEntries m) writes := by
  induction writes generalizing m with
  | nil => rfl
  | cons write rest ih =>
      rw [writeTexts, List.foldl_cons, ← writeTexts, ih, plainEntries_setPath]
      rfl

end Entries

namespace Merge

variable {policy : ArrayMerge} {selectors : Option (List Text)} {above key : Text}

theorem mergeEntries_set_of_not_mem {target entries : Entries Value}
    (hkey : key ∈ Entries.keys target) (hnone : key ∉ Entries.keys entries) (w : Value) :
    mergeEntries policy selectors above (Entries.set target key w) entries =
      Entries.set (mergeEntries policy selectors above target entries) key w := by
  induction entries generalizing target with
  | nil => rw [mergeEntries, mergeEntries]
  | cons entry rest ih =>
      obtain ⟨k, v⟩ := entry
      have hnone : key ≠ k ∧ key ∉ Entries.keys rest := by simpa [Entries.keys] using hnone
      rw [mergeEntries, mergeEntries, Entries.get?_set_ne target w hnone.1.symm]
      split
      · split
        · rw [Entries.set_comm hkey hnone.1.symm, ih (Entries.mem_keys_set hkey _) hnone.2]
        · exact ih hkey hnone.2
      · exact ih hkey hnone.2

theorem mergeEntries_cons_of_some {target rest : Entries Value} {v w : Value}
    (hwalked : Path.walked (Path.join above key) selectors = true)
    (hw : mergeValue policy selectors (Path.join above key) (Entries.get? target key) v = some w) :
    mergeEntries policy selectors above target ((key, v) :: rest) =
      mergeEntries policy selectors above (Entries.set target key w) rest := by
  rw [mergeEntries, if_pos hwalked, hw]

theorem mergeEntries_set {target entries : Entries Value} (hentries : Entries.NodupKeys entries)
    (hkey : key ∈ Entries.keys target)
    (hwalked : Path.walked (Path.join above key) selectors = true) {v w : Value}
    (hw : mergeValue policy selectors (Path.join above key) (Entries.get? target key) v = some w) :
    mergeEntries policy selectors above target (Entries.set entries key v) =
      Entries.set (mergeEntries policy selectors above target entries) key w := by
  induction entries generalizing target with
  | nil =>
      rw [Entries.set, mergeEntries_cons_of_some hwalked hw, mergeEntries, mergeEntries]
  | cons entry rest ih =>
      obtain ⟨k, x⟩ := entry
      obtain ⟨hfirst, hrest⟩ := Entries.nodupKeys_cons_iff.mp hentries
      by_cases hk : k = key
      · -- whatever the entry in the place of the new one leaves is written over
        subst hk
        have hover : Entries.set (mergeEntries policy selectors above target ((k, x) :: rest)) k w =
            Entries.set (mergeEntries policy selectors above target rest) k w := by
          rw [mergeEntries, if_pos hwalked]
          split
          · rw [mergeEntries_set_of_not_mem hkey hfirst, Entries.set_set]
          · rfl
        rw [Entries.set, if_pos rfl, mergeEntries_cons_of_some hwalked hw,
          mergeEntries_set_of_not_mem hkey hfirst, hover]
      · rw [Entries.set, if_neg hk, mergeEntries, mergeEntries]
        split
        · split
          · refine ih hrest (Entries.mem_keys_set hkey _) ?_
            rwa [Entries.get?_set_ne target _ (Ne.symm hk)]
          · exact ih hrest hkey hw
        · exact ih hrest hkey hw

theorem below_mergeEntries {target entries record : Entries Value}
    (hentries : Entries.NodupKeys entries) (hrecord : Entries.get? target key = some (.map record))
    (hmaps : ∀ v ∈ Entries.get? entries key, v.isMap = true) :
    Entries.below (mergeEntries policy none above target entries) key =
      mergeEntries policy none (Path.join above key) record (Entries.below entries key) := by
  unfold Entries.below
  rw [get?_mergeEntries hentries, hrecord]
  cases hv : Entries.get? entries key with
  | none => rw [merged, mergeEntries]
  | some v =>
      obtain ⟨es, rfl⟩ := Value.exists_map_of_isMap (hmaps v hv)
      rw [merged_of_walked rfl, mergeValue, Option.some_or]

/-- A text that is written into the data at the place of something in the record, and of nothing in
the data, is merged into the record by writing it there. -/
theorem mergeEntries_setPath {target entries : Entries Value}
    (hentries : (Value.map entries).WellFormed) {ks : List Text} (hopen : Entries.Open entries ks)
    {old : Value} (hold : Value.getPath? (.map target) ks = some old) (t : Text) :
    mergeEntries policy none above target (Entries.setPath entries ks (.text t)) =
      Entries.setPath (mergeEntries policy none above target entries) ks (.text t) := by
  induction ks generalizing above target entries with
  | nil => exact hopen.elim
  | cons key rest ih =>
      rw [Value.getPath?_map_cons] at hold
      obtain ⟨w, hw, hold⟩ := Option.bind_eq_some_iff.mp hold
      have hkey := Entries.mem_keys_of_get? hw
      cases rest with
      | nil => exact mergeEntries_set hentries.1 hkey rfl rfl
      | cons next more =>
          obtain ⟨record, rfl⟩ := Value.exists_map_of_isMap (Value.isMap_of_getPath?_cons hold)
          have hbelow : mergeEntries policy none (Path.join above key) record
              (Entries.setPath (Entries.below entries key) (next :: more) (.text t)) =
                Entries.setPath (mergeEntries policy none (Path.join above key) record
                  (Entries.below entries key)) (next :: more) (.text t) :=
            ih (Entries.wellFormed_below hentries key) (Entries.open_below hopen) hold
          rw [Entries.setPath_cons_cons, Entries.setPath_cons_cons,
            below_mergeEntries hentries.1 hw hopen.isMap, ← hbelow]
          refine mergeEntries_set hentries.1 hkey rfl ?_
          rw [hw, mergeValue]

/-- Merging texts that were written at places of something in the record is writing them there. -/
theorem mergeEntries_writeTexts {target entries : Entries Value}
    (hentries : (Value.map entries).WellFormed) {writes : List (List Text × Text)}
    (hopen : ∀ write ∈ writes, Entries.Open entries write.1)
    (hapart : writes.Pairwise fun a b => Path.Apart a.1 b.1)
    (hold : ∀ write ∈ writes, ∃ old, Value.getPath? (.map target) write.1 = some old) :
    mergeEntries policy none above target (Entries.writeTexts entries writes) =
      Entries.writeTexts (mergeEntries policy none above target entries) writes := by
  induction writes generalizing entries with
  | nil => rfl
  | cons write rest ih =>
      obtain ⟨hfirst, hrest⟩ := List.pairwise_cons.mp hapart
      obtain ⟨hopenFirst, hopenRest⟩ := List.forall_mem_cons.mp hopen
      obtain ⟨⟨old, hget⟩, holdRest⟩ := List.forall_mem_cons.mp hold
      have hopenRest : ∀ other ∈ rest,
          Entries.Open (Entries.setPath entries write.1 (.text write.2)) other.1 :=
        fun other hmem => (hopenRest other hmem).setPath (hfirst other hmem) _
      rw [Entries.writeTexts, Entries.writeTexts, List.foldl_cons, List.foldl_cons,
        ← Entries.writeTexts, ← Entries.writeTexts,
        ih (Value.wellFormed_setPath hentries write.1 (v := .text write.2) trivial) hopenRest hrest
          holdRest,
        mergeEntries_setPath hentries hopenFirst hget]

end Merge

end InverseTemplate
