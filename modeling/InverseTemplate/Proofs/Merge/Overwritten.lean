/-
# What a merge takes over

Under a list of selectors a merge walks through everything above a selector to reach it.  On the way
it meets values of the record that no selector covers.  A map is walked through; but anything else
gives way to what was extracted, although nothing at that path was selected.

`Lands` says what it takes for something extracted to get into the record where there is no map, and
`Overwritten` where a value that is not covered gives way.  Both speak of the record, the extracted
data and the selectors only.  They are what the merge and the comparison are measured against: what
lands where the record has nothing is reported as added, and what is overwritten is not reported.
-/
import InverseTemplate.Difference
import InverseTemplate.Merge
import InverseTemplate.Proofs.Value.Equal
import InverseTemplate.Proofs.Value.Written

namespace InverseTemplate

variable {selectors : Option (List Text)}

/-- Something of the value gets into the record at a path where it has no map. -/
inductive Lands (selectors : Option (List Text)) : Text → Value → Prop
  | value {path : Text} {v : Value} : v.isMap = false → Lands selectors path v
  | covered {path : Text} {entries : Entries Value} : Path.covered path selectors = true →
      Lands selectors path (.map entries)
  | nested {path key : Text} {v : Value} {entries : Entries Value} : (key, v) ∈ entries →
      Path.walked (Path.join path key) selectors = true → Lands selectors (Path.join path key) v →
      Lands selectors path (.map entries)

/-- An extracted value takes the place of a value of the record that no selector covers, at a path
or below it. -/
inductive Overwritten (selectors : Option (List Text)) : Text → Value → Value → Prop
  | here {path : Text} {old new : Value} : Path.covered path selectors = false →
      ¬ (old.isMap = true ∧ new.isMap = true) → Value.equal old new = false →
      Lands selectors path new → Overwritten selectors path old new
  | nested {path key : Text} {old new : Value} {record entries : Entries Value} :
      Entries.get? record key = some old → (key, new) ∈ entries →
      Path.walked (Path.join path key) selectors = true →
      Overwritten selectors (Path.join path key) old new →
      Overwritten selectors path (.map record) (.map entries)

namespace Merge

/-! ## One value -/

theorem mergeValue_of_not_map {path : Text} {current : Option Value} {v : Value}
    (h : v.isMap = false) : mergeValue .replace selectors path current v = some v.plain := by
  cases v with
  | map entries => exact absurd h (by simp [Value.isMap, Value.entries?])
  | list items =>
      simp only [mergeValue, Value.plain]
      split <;> rfl
  | tuple items =>
      simp only [mergeValue, Value.plain]
      split <;> rfl
  | _ => rfl

theorem mergeValue_map_of_not_map {policy : ArrayMerge} {path : Text} {current : Option Value}
    (hcurrent : ∀ c ∈ current, c.isMap = false) (entries : Entries Value) :
    mergeValue policy selectors path current (.map entries) =
      if mergeEntries policy selectors path [] entries ≠ [] ∨
          Path.covered path selectors = true then
        some (.map (mergeEntries policy selectors path [] entries))
      else none := by
  unfold mergeValue
  split
  · next below => exact absurd (hcurrent _ rfl) (by simp [Value.isMap, Value.entries?])
  · rfl

/-- One entry merged into a map. -/
def mergeEntry (selectors : Option (List Text)) (above : Text) (target : Entries Value)
    (entry : Text × Value) : Entries Value :=
  if Path.walked (Path.join above entry.1) selectors then
    match mergeValue .replace selectors (Path.join above entry.1)
        (Entries.get? target entry.1) entry.2 with
    | some w => Entries.set target entry.1 w
    | none => target
  else target

theorem mergeEntries_cons (above : Text) (target : Entries Value) (entry : Text × Value)
    (rest : Entries Value) : mergeEntries .replace selectors above target (entry :: rest) =
      mergeEntries .replace selectors above (mergeEntry selectors above target entry) rest := by
  obtain ⟨key, v⟩ := entry
  unfold mergeEntry
  rw [mergeEntries]
  cases h : mergeValue .replace selectors (Path.join above key) (Entries.get? target key) v with
  | none =>
      dsimp only
      split <;> rfl
  | some w =>
      dsimp only
      split <;> rfl

theorem get?_mergeEntry_ne (above : Text) (target : Entries Value) {entry : Text × Value}
    {key : Text} (h : key ≠ entry.1) :
    Entries.get? (mergeEntry selectors above target entry) key = Entries.get? target key := by
  unfold mergeEntry
  split
  · split
    · exact Entries.get?_set_ne target _ h
    · rfl
  · rfl

/-- What stands at a path after a merge: what the extracted value leaves there, or else what was
there. -/
def settled (selectors : Option (List Text)) (path : Text) (current : Option Value) (v : Value) :
    Option Value :=
  (mergeValue .replace selectors path current v).or current

theorem settled_of_some {path : Text} {current : Option Value} {v w : Value}
    (h : mergeValue .replace selectors path current v = some w) :
    settled selectors path current v = some w := by
  rw [settled, h, Option.some_or]

theorem settled_of_none {path : Text} {current : Option Value} {v : Value}
    (h : mergeValue .replace selectors path current v = none) :
    settled selectors path current v = current := by
  rw [settled, h, Option.none_or]

theorem get?_mergeEntry_self {above key : Text} {target : Entries Value} {v : Value}
    (hwalked : Path.walked (Path.join above key) selectors = true) :
    Entries.get? (mergeEntry selectors above target (key, v)) key =
      settled selectors (Path.join above key) (Entries.get? target key) v := by
  unfold mergeEntry
  dsimp only
  rw [if_pos hwalked]
  split
  · next w hw => rw [Entries.get?_set_self, settled_of_some hw]
  · next hnone => rw [settled_of_none hnone]

/-! ## What lands -/

theorem mergeEntry_ne_nil {above : Text} {target : Entries Value} {entry : Text × Value}
    (h : target ≠ []) : mergeEntry selectors above target entry ≠ [] := by
  unfold mergeEntry
  split
  · split
    · exact Entries.set_ne_nil target _ _
    · exact h
  · exact h

theorem mergeEntries_ne_nil {above : Text} {target : Entries Value} (h : target ≠ [])
    (entries : Entries Value) : mergeEntries .replace selectors above target entries ≠ [] := by
  induction entries generalizing target with
  | nil => rwa [mergeEntries]
  | cons entry rest ih =>
      rw [mergeEntries_cons]
      exact ih (mergeEntry_ne_nil h)

theorem mergeEntries_ne_nil_of_mem {above key : Text} {v w : Value} {entries : Entries Value}
    (hmem : (key, v) ∈ entries) (hwalked : Path.walked (Path.join above key) selectors = true)
    (h : mergeValue .replace selectors (Path.join above key) none v = some w) :
    mergeEntries .replace selectors above [] entries ≠ [] := by
  induction entries with
  | nil => simp at hmem
  | cons entry rest ih =>
      rw [mergeEntries_cons]
      by_cases hnil : mergeEntry selectors above [] entry = []
      · rcases List.mem_cons.mp hmem with rfl | hmem
        · have hself : Entries.get? (mergeEntry selectors above [] (key, v)) key = some w :=
            (get?_mergeEntry_self hwalked).trans (settled_of_some h)
          rw [hnil] at hself
          simp at hself
        · rw [hnil]
          exact ih hmem
      · exact mergeEntries_ne_nil hnil rest

theorem exists_mergeValue_of_lands {path : Text} {v : Value} (h : Lands selectors path v) :
    ∀ current : Option Value, (∀ c ∈ current, c.isMap = false) →
      ∃ w, mergeValue .replace selectors path current v = some w := by
  induction h with
  | value hv => exact fun current _ => ⟨_, mergeValue_of_not_map hv⟩
  | covered hpath =>
      intro current hcurrent
      rw [mergeValue_map_of_not_map hcurrent, if_pos (.inr hpath)]
      exact ⟨_, rfl⟩
  | @nested path key v entries hmem hwalked _ ih =>
      intro current hcurrent
      obtain ⟨w, hw⟩ := ih none (by simp)
      have hlanded := mergeEntries_ne_nil_of_mem hmem hwalked hw
      rw [mergeValue_map_of_not_map hcurrent, if_pos (.inl hlanded)]
      exact ⟨_, rfl⟩

mutual

theorem lands_of_mergeValue : ∀ (v : Value) (path : Text) (current : Option Value) (w : Value),
    (∀ c ∈ current, c.isMap = false) →
      mergeValue .replace selectors path current v = some w → Lands selectors path v
  | .map entries, path, current, w, hcurrent, h => by
      rw [mergeValue_map_of_not_map hcurrent] at h
      by_cases hcovered : Path.covered path selectors = true
      · exact .covered hcovered
      · by_cases hlanded : mergeEntries .replace selectors path [] entries = []
        · rw [if_neg (by simp [hlanded, hcovered])] at h
          simp at h
        · obtain ⟨entry, hmem, hwalked, hlands⟩ := lands_of_mergeEntries entries path hlanded
          exact .nested hmem hwalked hlands
  | .null, _, _, _, _, _ => .value rfl
  | .bool _, _, _, _, _, _ => .value rfl
  | .int _, _, _, _, _, _ => .value rfl
  | .float _, _, _, _, _, _ => .value rfl
  | .text _, _, _, _, _, _ => .value rfl
  | .list _, _, _, _, _, _ => .value rfl
  | .tuple _, _, _, _, _, _ => .value rfl
  | .other _, _, _, _, _, _ => .value rfl

theorem lands_of_mergeEntries : ∀ (entries : List (Text × Value)) (above : Text),
    mergeEntries .replace selectors above [] entries ≠ [] →
      ∃ entry ∈ entries, Path.walked (Path.join above entry.1) selectors = true ∧
        Lands selectors (Path.join above entry.1) entry.2
  | [], _, h => absurd rfl h
  | (key, v) :: rest, above, h => by
      rw [mergeEntries_cons] at h
      by_cases hnil : mergeEntry selectors above [] (key, v) = []
      · rw [hnil] at h
        obtain ⟨entry, hmem, hentry⟩ := lands_of_mergeEntries rest above h
        exact ⟨entry, List.mem_cons_of_mem _ hmem, hentry⟩
      · refine ⟨(key, v), List.mem_cons_self .., ?_⟩
        unfold mergeEntry at hnil
        dsimp only at hnil
        split at hnil
        · next hwalked =>
            split at hnil
            · next w hw => exact ⟨hwalked, lands_of_mergeValue v _ _ w (by simp) hw⟩
            · exact absurd rfl hnil
        · exact absurd rfl hnil

end

end Merge

end InverseTemplate
