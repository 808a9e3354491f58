/-
# Merging key by key

Extracted entries do not get into each other's way: what a merge leaves under a key is decided by
what the record has there and by the one entry extracted for it.  `merged` says what it is, for any
array policy and any selectors, and `get?_mergeEntries` reads a merged map by it.
-/
import InverseTemplate.Proofs.Merge.Overwritten
import InverseTemplate.Proofs.Value.Place

namespace InverseTemplate

namespace Merge

variable {policy : ArrayMerge} {selectors : Option (List Text)}

/-- What stands at a path after a merge, given what stood there and what was extracted for it. -/
def merged (policy : ArrayMerge) (selectors : Option (List Text)) (path : Text)
    (current : Option Value) : Option Value → Option Value
  | none => current
  | some v =>
      if Path.walked path selectors then (mergeValue policy selectors path current v).or current
      else current

theorem merged_of_not_walked {path : Text} (h : Path.walked path selectors = false)
    (current new : Option Value) : merged policy selectors path current new = current := by
  cases new with
  | none => rfl
  | some v => rw [merged, if_neg (by simp [h])]

theorem merged_of_walked {path : Text} (h : Path.walked path selectors = true)
    (current : Option Value) (v : Value) :
    merged policy selectors path current (some v) =
      (mergeValue policy selectors path current v).or current := by
  rw [merged, if_pos h]

theorem get?_mergeEntries_of_get?_eq_none {above key : Text} {target entries : Entries Value}
    (h : Entries.get? entries key = none) :
    Entries.get? (mergeEntries policy selectors above target entries) key =
      Entries.get? target key := by
  induction entries generalizing target with
  | nil => rw [mergeEntries]
  | cons entry rest ih =>
      obtain ⟨k, v⟩ := entry
      by_cases hk : k = key
      · simp [Entries.get?, hk] at h
      · rw [Entries.get?, if_neg hk] at h
        rw [mergeEntries]
        split
        · split
          · rw [ih h, Entries.get?_set_ne target _ (Ne.symm hk)]
          · exact ih h
        · exact ih h

theorem get?_mergeEntries {entries : Entries Value} (hnodup : Entries.NodupKeys entries)
    (above key : Text) (target : Entries Value) :
    Entries.get? (mergeEntries policy selectors above target entries) key =
      merged policy selectors (Path.join above key) (Entries.get? target key)
        (Entries.get? entries key) := by
  induction entries generalizing target with
  | nil => rw [mergeEntries, Entries.get?_nil, merged]
  | cons entry rest ih =>
      obtain ⟨k, v⟩ := entry
      obtain ⟨hfirst, hrest⟩ := Entries.nodupKeys_cons_iff.mp hnodup
      rw [mergeEntries]
      by_cases hk : k = key
      · -- the first entry is the one of the key, and no other follows
        subst hk
        have hnone := (Entries.get?_eq_none_iff rest k).mpr hfirst
        rw [Entries.get?, if_pos rfl]
        cases hwalked : Path.walked (Path.join above k) selectors with
        | false =>
            rw [merged_of_not_walked hwalked, if_neg (by simp)]
            exact get?_mergeEntries_of_get?_eq_none hnone
        | true =>
            rw [merged_of_walked hwalked, if_pos rfl]
            cases mergeValue policy selectors (Path.join above k) (Entries.get? target k) v with
            | none => exact get?_mergeEntries_of_get?_eq_none hnone
            | some w =>
                exact (get?_mergeEntries_of_get?_eq_none hnone).trans
                  (Entries.get?_set_self target k w)
      · rw [Entries.get?, if_neg hk]
        split
        · split
          · rw [ih hrest, Entries.get?_set_ne target _ (Ne.symm hk)]
          · exact ih hrest target
        · exact ih hrest target

theorem nodupKeys_mergeEntries {target : Entries Value} (h : Entries.NodupKeys target)
    (above : Text)
    (entries : Entries Value) :
    Entries.NodupKeys (mergeEntries policy selectors above target entries) := by
  induction entries generalizing target with
  | nil => rwa [mergeEntries]
  | cons entry rest ih =>
      obtain ⟨key, v⟩ := entry
      rw [mergeEntries]
      split
      · split
        · exact ih (h.set key _)
        · exact ih h
      · exact ih h

theorem mergeEntries_of_not_walked {above : Text} {entries : Entries Value}
    (h : ∀ entry ∈ entries, Path.walked (Path.join above entry.1) selectors = false)
    (target : Entries Value) : mergeEntries policy selectors above target entries = target := by
  induction entries with
  | nil => rw [mergeEntries]
  | cons entry rest ih =>
      obtain ⟨key, v⟩ := entry
      obtain ⟨hfirst, hrest⟩ := List.forall_mem_cons.mp h
      rw [mergeEntries, if_neg (by simp [hfirst]), ih hrest]

end Merge

end InverseTemplate
