/-
# Merges that report nothing

The comparison and the merge walk over the same extracted data.  When the comparison reports
nothing, the merge leaves the record as it was, up to the spelling of arrays, exactly if it
overwrites nothing that no selector covers: `equal_applyExtracted_iff`.

From right to left the invariant is that record and target agree under every key.  Each extracted
entry keeps it: what would land where the record has nothing would have been reported, and what the
record has is equal or reported or overwritten.  From left to right one overwritten value is enough.
-/
import InverseTemplate.Proofs.Merge.Pathwise

namespace InverseTemplate

variable {selectors : Option (List Text)}

namespace Difference

/-! ## Comparisons that find nothing -/

/-- Nothing was added and nothing modified. -/
def Findings.Unchanged (f : Findings) : Prop := f.added = [] ∧ f.modified = []

theorem Findings.unchanged_append {f g : Findings} :
    (f.append g).Unchanged ↔ f.Unchanged ∧ g.Unchanged := by
  simp only [Unchanged, append, List.append_eq_nil_iff]
  constructor
  · rintro ⟨⟨h1, h2⟩, h3, h4⟩
    exact ⟨⟨h1, h3⟩, h2, h4⟩
  · rintro ⟨⟨h1, h3⟩, h2, h4⟩
    exact ⟨⟨h1, h2⟩, h3, h4⟩

theorem Findings.unchanged_under {key : Text} {f : Findings} :
    (f.under key).Unchanged ↔ f.Unchanged := by
  simp only [Unchanged, under]
  refine and_congr ?_ Iff.rfl
  cases f.added <;> simp

theorem compareValue_of_not_map {path key : Text} {old : Option Value} {new : Value}
    (h : new.isMap = false) : compareValue selectors path key old new =
      match old with
      | some v =>
          if !Value.equal v new && Path.covered path selectors then
            ⟨[], [(path, ⟨v.plain, new.plain⟩)], []⟩
          else .empty
      | none => ⟨[(key, new.plain)], [], []⟩ := by
  cases new with
  | map entries => exact absurd h (by simp [Value.isMap, Value.entries?])
  | _ => cases old <;> rfl

theorem compareValue_map_of_not_map {path key : Text} {old : Value} {entries : Entries Value}
    (h : old.isMap = false) : compareValue selectors path key (some old) (.map entries) =
      if Path.covered path selectors then
        ⟨[], [(path, ⟨old.plain, (Value.map entries).plain⟩)], []⟩
      else .empty := by
  cases old with
  | map record => exact absurd h (by simp [Value.isMap, Value.entries?])
  | _ => rfl

theorem unchanged_of_mem {above : Text} {record entries : Entries Value} {key : Text} {v : Value}
    (h : (compareEntries selectors above record entries).Unchanged) (hmem : (key, v) ∈ entries)
    (hwalked : Path.walked (Path.join above key) selectors = true) :
    (compareValue selectors (Path.join above key) key (Entries.get? record key) v).Unchanged := by
  induction entries with
  | nil => simp at hmem
  | cons entry rest ih =>
      obtain ⟨k, w⟩ := entry
      rw [compareEntries] at h
      obtain ⟨hhere, hrest⟩ := Findings.unchanged_append.mp h
      rcases List.mem_cons.mp hmem with heq | hmem
      · cases heq
        rwa [if_pos hwalked] at hhere
      · exact ih hrest hmem

theorem not_unchanged_of_lands {path : Text} {v : Value} (h : Lands selectors path v) :
    ∀ key, ¬ (compareValue selectors path key none v).Unchanged := by
  induction h with
  | value hv =>
      intro key hunchanged
      rw [compareValue_of_not_map hv] at hunchanged
      exact absurd hunchanged.1 (by simp)
  | covered hpath =>
      intro key hunchanged
      simp only [compareValue, hpath, if_true] at hunchanged
      exact absurd hunchanged.1 (by simp)
  | nested hmem hwalked _ ih =>
      intro key hunchanged
      simp only [compareValue] at hunchanged
      split at hunchanged
      · exact absurd hunchanged.1 (by simp)
      · exact ih _ (unchanged_of_mem (Findings.unchanged_under.mp hunchanged) hmem hwalked)

theorem foldl_set_ne_nil {α : Type} (writes : List (Text × α)) {m : Entries α} (h : m ≠ []) :
    writes.foldl (fun m write => Entries.set m write.1 write.2) m ≠ [] := by
  induction writes generalizing m with
  | nil => exact h
  | cons write rest ih => exact ih (Entries.set_ne_nil m write.1 write.2)

theorem ofWrites_eq_nil {α : Type} {writes : List (Text × α)} (h : Entries.ofWrites writes = []) :
    writes = [] := by
  cases writes with
  | nil => rfl
  | cons write rest => exact absurd h (foldl_set_ne_nil rest (Entries.set_ne_nil [] _ _))

theorem unchanged_of_hasChanges {record entries : Entries Value}
    (h : (between selectors (.map record) (.map entries)).hasChanges = false) :
    (compareEntries selectors [] record entries).Unchanged := by
  simp only [hasChanges, isEmpty, between, ofFindings, Bool.not_eq_false', Bool.and_eq_true,
    List.isEmpty_iff] at h
  exact ⟨h.1.1, ofWrites_eq_nil h.1.2⟩

end Difference

namespace Merge

open Difference

/-! ## What agrees stays so -/

theorem agree_of_unchanged_value {path key : Text} {old current : Option Value} {new w : Value}
    (hnew : new.isMap = false)
    (hunchanged : (compareValue selectors path key old new).Unchanged)
    (hkept : ∀ o ∈ old, ¬ Overwritten selectors path o new)
    (h : mergeValue .replace selectors path current new = some w) : Value.Agree old (some w) := by
  rw [mergeValue_of_not_map hnew, Option.some.injEq] at h
  subst h
  rw [compareValue_of_not_map hnew] at hunchanged
  cases old with
  | none => exact absurd hunchanged.1 (by simp)
  | some o =>
      show Value.equal o new.plain = true
      rw [Value.equal_plain]
      cases heq : Value.equal o new with
      | true => rfl
      | false =>
          cases hcovered : Path.covered path selectors with
          | true =>
              simp only [heq, hcovered] at hunchanged
              exact absurd hunchanged.2 (by simp)
          | false =>
              refine absurd (Overwritten.here hcovered ?_ heq (.value hnew)) (hkept o rfl)
              rw [hnew]
              simp

theorem mergeValue_map_ne_some {path key : Text} {o c w : Value} {entries : Entries Value}
    (ho : o.isMap = false) (hmap : o.isMap = c.isMap)
    (hunchanged : (compareValue selectors path key (some o) (.map entries)).Unchanged)
    (hkept : ¬ Overwritten selectors path o (.map entries)) :
    mergeValue .replace selectors path (some c) (.map entries) ≠ some w := by
  intro h
  have hcurrent : ∀ c' ∈ some c, c'.isMap = false := by
    intro c' hc'
    cases hc'
    rw [← hmap, ho]
  have hlands := lands_of_mergeValue (.map entries) path (some c) w hcurrent h
  cases hcovered : Path.covered path selectors with
  | true =>
      rw [compareValue_map_of_not_map ho, if_pos hcovered] at hunchanged
      exact absurd hunchanged.2 (by simp)
  | false =>
      refine hkept (.here hcovered ?_ ?_ hlands)
      · rw [ho]
        simp
      · cases heq : Value.equal o (.map entries) with
        | false => rfl
        | true =>
            have := Value.isMap_eq_of_equal heq
            rw [ho] at this
            exact absurd this (by simp [Value.isMap, Value.entries?])

mutual

/-- If a value's comparison finds nothing, what the merge leaves agrees with the record. -/
theorem agree_of_unchanged : ∀ (new : Value) (path key : Text) (old current : Option Value)
    (w : Value), Value.Agree old current → (∀ o ∈ old, o.WellFormed) →
      (compareValue selectors path key old new).Unchanged →
      (∀ o ∈ old, ¬ Overwritten selectors path o new) →
      mergeValue .replace selectors path current new = some w → Value.Agree old (some w)
  | .map entries, path, key, none, current, w, hagree, _, hunchanged, _, h => by
      cases current with
      | none =>
          have hlands := lands_of_mergeValue (.map entries) path none w (by simp) h
          exact absurd hunchanged (not_unchanged_of_lands hlands key)
      | some c => exact hagree.elim
  | .map entries, path, key, some o, none, w, hagree, _, _, _, _ => hagree.elim
  | .map entries, path, key, some o, some c, w, hagree, hwf, hunchanged, hkept, h => by
      have hmap := Value.isMap_eq_of_equal hagree
      cases o with
      | map record =>
          cases c with
          | map target =>
              obtain ⟨hnodup, hvalues⟩ := hwf (.map record) rfl
              rw [compareValue, Findings.unchanged_under] at hunchanged
              rw [mergeValue, Option.some.injEq] at h
              subst h
              refine (Value.equal_map_iff hnodup).mpr ?_
              refine agree_of_unchanged_entries entries path record target
                ((Value.equal_map_iff hnodup).mp hagree)
                (fun key o ho => Value.wellFormed_of_get? hvalues ho) hunchanged ?_
              intro key o new ho hnew hwalked hover
              exact hkept (.map record) rfl (.nested ho hnew hwalked hover)
          | _ => exact absurd hmap (by simp [Value.isMap, Value.entries?])
      | _ => exact absurd h (mergeValue_map_ne_some rfl hmap hunchanged (hkept _ rfl))
  | .null, _, _, _, _, _, _, _, hu, hk, h => agree_of_unchanged_value rfl hu hk h
  | .bool _, _, _, _, _, _, _, _, hu, hk, h => agree_of_unchanged_value rfl hu hk h
  | .int _, _, _, _, _, _, _, _, hu, hk, h => agree_of_unchanged_value rfl hu hk h
  | .float _, _, _, _, _, _, _, _, hu, hk, h => agree_of_unchanged_value rfl hu hk h
  | .text _, _, _, _, _, _, _, _, hu, hk, h => agree_of_unchanged_value rfl hu hk h
  | .list _, _, _, _, _, _, _, _, hu, hk, h => agree_of_unchanged_value rfl hu hk h
  | .tuple _, _, _, _, _, _, _, _, hu, hk, h => agree_of_unchanged_value rfl hu hk h
  | .other _, _, _, _, _, _, _, _, hu, hk, h => agree_of_unchanged_value rfl hu hk h

theorem agree_of_unchanged_entries : ∀ (entries : List (Text × Value)) (above : Text)
    (record target : Entries Value),
      (∀ key, Value.Agree (Entries.get? record key) (Entries.get? target key)) →
      (∀ key o, Entries.get? record key = some o → o.WellFormed) →
      (compareEntries selectors above record entries).Unchanged →
      (∀ key o new, Entries.get? record key = some o → (key, new) ∈ entries →
        Path.walked (Path.join above key) selectors = true →
        ¬ Overwritten selectors (Path.join above key) o new) →
      ∀ key, Value.Agree (Entries.get? record key)
        (Entries.get? (mergeEntries .replace selectors above target entries) key)
  | [], above, record, target, hagree, _, _, _ => hagree
  | (k, v) :: rest, above, record, target, hagree, hwf, hunchanged, hkept => by
      have hhere : Path.walked (Path.join above k) selectors = true →
          (compareValue selectors (Path.join above k) k (Entries.get? record k) v).Unchanged :=
        unchanged_of_mem hunchanged (List.mem_cons_self ..)
      rw [compareEntries] at hunchanged
      rw [mergeEntries_cons]
      refine agree_of_unchanged_entries rest above record _ ?_ hwf
        (Findings.unchanged_append.mp hunchanged).2
        fun key o new ho hnew => hkept key o new ho (List.mem_cons_of_mem _ hnew)
      intro key
      by_cases hkey : key = k
      · subst hkey
        unfold mergeEntry
        dsimp only
        split
        · next hwalked =>
            split
            · next w hw =>
                rw [Entries.get?_set_self]
                exact agree_of_unchanged v _ _ _ _ w (hagree key) (fun o ho => hwf key o ho)
                  (hhere hwalked)
                  (fun o ho => hkept key o v ho (List.mem_cons_self ..) hwalked) hw
            · exact hagree key
        · exact hagree key
      · rw [get?_mergeEntry_ne above target hkey]
        exact hagree key

end

/-! ## What is overwritten shows -/

theorem get?_mergeEntries_of_mem {above key : Text} {target entries : Entries Value} {v : Value}
    (hnodup : Entries.NodupKeys entries) (hmem : (key, v) ∈ entries)
    (hwalked : Path.walked (Path.join above key) selectors = true) :
    Entries.get? (mergeEntries .replace selectors above target entries) key =
      settled selectors (Path.join above key) (Entries.get? target key) v := by
  rw [get?_mergeEntries hnodup, Entries.get?_of_mem hnodup hmem, merged_of_walked hwalked, settled]

theorem isMap_of_mergeValue {path : Text} {current : Option Value} {v w : Value}
    (hv : v.isMap = true) (h : mergeValue .replace selectors path current v = some w) :
    w.isMap = true := by
  cases v with
  | map entries =>
      unfold mergeValue at h
      split at h
      · cases h
        rfl
      · dsimp only at h
        split at h
        · cases h
          rfl
        · simp at h
  | _ => simp [Value.isMap, Value.entries?] at hv

/-- A value that is overwritten, itself or somewhere in it, is not equal to what the merge leaves of
it. -/
theorem exists_of_overwritten {path : Text} {old new : Value}
    (h : Overwritten selectors path old new) (hnew : new.WellFormed) :
    ∃ w, mergeValue .replace selectors path (some old.plain) new = some w ∧
      Value.equal old w = false := by
  induction h with
  | @here path old new _ hmaps heq hlands =>
      cases hmap : new.isMap with
      | false => exact ⟨new.plain, mergeValue_of_not_map hmap, by rw [Value.equal_plain, heq]⟩
      | true =>
          have hold : old.isMap = false := by simpa [hmap] using hmaps
          have hplain : ∀ c ∈ some old.plain, c.isMap = false := by
            intro c hc
            cases hc
            rw [Value.isMap_plain, hold]
          obtain ⟨w, hw⟩ := exists_mergeValue_of_lands hlands (some old.plain) hplain
          refine ⟨w, hw, ?_⟩
          have hwmap : w.isMap = true := isMap_of_mergeValue hmap hw
          cases hequal : Value.equal old w with
          | false => rfl
          | true =>
              have := Value.isMap_eq_of_equal hequal
              rw [hold, hwmap] at this
              exact absurd this (by simp)
  | @nested path key old new record entries hold hmem hwalked _ ih =>
      obtain ⟨hnodup, hvalues⟩ := hnew
      obtain ⟨w, hw, hne⟩ := ih (Value.wellFormed_of_mem hvalues hmem)
      refine ⟨_, rfl, ?_⟩
      have hget : Entries.get? (mergeEntries .replace selectors path (Value.plainEntries record)
          entries) key = some w := by
        rw [get?_mergeEntries_of_mem hnodup hmem hwalked, Entries.get?_plainEntries, hold]
        exact settled_of_some hw
      cases hequal : Value.equal (.map record) (.map (mergeEntries .replace selectors path
          (Value.plainEntries record) entries)) with
      | false => rfl
      | true =>
          rw [Value.equal, Bool.and_eq_true, Value.equalEntries_iff] at hequal
          obtain ⟨y, hy, heq⟩ := hequal.2 (key, old) (Entries.mem_of_get? hold)
          rw [hget] at hy
          cases hy
          rw [hne] at heq
          exact absurd heq (by simp)

/-- A merge that the comparison reports nothing of leaves a record equal to itself exactly if it
overwrites nothing. -/
theorem equal_applyExtracted_iff {record entries : Entries Value}
    (hrecord : (Value.map record).WellFormed) (hentries : (Value.map entries).WellFormed)
    (hnone : (Difference.between selectors (.map record) (.map entries)).hasChanges = false) :
    Value.equal (.map record) (applyExtracted .replace selectors (.map record) (.map entries)) =
        true ↔
      ¬ Overwritten selectors [] (.map record) (.map entries) := by
  constructor
  · intro hequal hover
    obtain ⟨w, hw, hne⟩ := exists_of_overwritten hover hentries
    have heq : w = applyExtracted .replace selectors (.map record) (.map entries) := by
      rw [Value.plain, mergeValue, Option.some.injEq] at hw
      exact hw.symm
    rw [heq, hequal] at hne
    exact absurd hne (by simp)
  · intro hkept
    refine (Value.equal_map_iff hrecord.1).mpr ?_
    refine agree_of_unchanged_entries entries [] record (Value.plainEntries record) ?_ ?_
      (unchanged_of_hasChanges hnone) ?_
    · refine (Value.equal_map_iff hrecord.1).mp ?_
      have := Value.equal_plain (.map record) (.map record)
      rw [Value.equal_refl _ hrecord] at this
      exact this
    · exact fun key o ho => Value.wellFormed_of_get? hrecord.2 ho
    · exact fun key o new ho hnew hwalked hover => hkept (.nested ho hnew hwalked hover)

end Merge

end InverseTemplate
