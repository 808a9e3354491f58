/-
# Syncs that report no change

A sync that reports no change leaves the record as it was, with one exception.  A selector below a
place at which the record has no map, or at which the extracted data has none, makes the merge
replace what stands there, and the comparison, which asks whether that very place is covered, keeps
silent about it.
-/
import InverseTemplate.Proofs.Extraction.Plain
import InverseTemplate.Proofs.Extraction.WellFormed
import InverseTemplate.Proofs.Merge.Silent

namespace InverseTemplate

theorem exists_extract_of_syncEdits {settings : Settings} {extractors : Extractors}
    {options : MergeOptions} {source edited : Text} {base : Value} {s : SyncResult}
    (h : syncEdits settings extractors options source base edited = .ok s) :
    extract settings { extractors, placement := settings.placement } none source edited =
        .ok s.extraction ∧
      s.updated = applyExtracted (options.policy settings) options.paths base
        (.map s.extraction.data) ∧
      s.changes = Difference.between options.paths base (.map s.extraction.data) := by
  obtain ⟨e, he, h⟩ := exists_of_bind_eq_ok h
  cases h
  exact ⟨he, rfl, rfl⟩

/-- Without a reported change, the record after a sync that replaces arrays equals the record before
it exactly if nothing was overwritten at a place that no selector covers. -/
theorem equal_updated_iff_not_overwritten {settings : Settings} {extractors : Extractors}
    {options : MergeOptions} {source edited : Text} {record : Entries Value} {s : SyncResult}
    (hrecord : (Value.map record).WellFormed) (hyield : extractors.YieldWellFormed)
    (hpolicy : options.policy settings = .replace)
    (h : syncEdits settings extractors options source (.map record) edited = .ok s)
    (hnone : s.changes.hasChanges = false) :
    Value.equal (.map record) s.updated = true ↔
      ¬ Overwritten options.paths [] (.map record) (.map s.extraction.data) := by
  obtain ⟨hextract, hupdated, hchanges⟩ := exists_extract_of_syncEdits h
  rw [hchanges] at hnone
  rw [hupdated, hpolicy]
  exact Merge.equal_applyExtracted_iff hrecord (wellFormed_extract hyield hextract) hnone

/-- A selector below a text: the text is replaced and no change is reported. -/
theorem equal_updated_iff_not_overwritten_above_selector :
    let source := text "\x7ba\x7d"
    let record := [(text "a", Value.text (text "y"))]
    let options : MergeOptions := { paths := some [text "a.b"] }
    ∃ s, syncEdits {} [] options source (.map record) (text "x") = .ok s ∧
      s.changes.hasChanges = false ∧
      Overwritten options.paths [] (.map record) (.map s.extraction.data) ∧
      Value.equal (.map record) s.updated = false := by
  intro source record options
  have hslots : ∀ slot ∈ (Template.ofText source).slots, slot.kind = .expression := by
    decide +kernel
  let captures := (Captures.find {} (Template.ofText source) (text "x")).captures
  have hfind : (Captures.find {} (Template.ofText source) (text "x")).captures = captures := rfl
  obtain ⟨e, hextract, hdata, -, -⟩ := exists_extract {}
    { extractors := [], placement := Settings.placement {} } none hslots hfind
  have hwrites : captures.filterMap Capture.write? = [([text "a"], text "x")] := by decide +kernel
  rw [hwrites] at hdata
  have hdata : e.data = [(text "a", Value.text (text "x"))] := hdata
  obtain ⟨s, hs⟩ : ∃ s, syncEdits {} [] options source (.map record) (text "x") = .ok s := by
    unfold syncEdits
    rw [hextract]
    exact ⟨_, rfl⟩
  obtain ⟨hextracted, hupdated, hchanges⟩ := exists_extract_of_syncEdits hs
  have he : e = s.extraction := by
    rw [hextract] at hextracted
    cases hextracted
    rfl
  rw [← he, hdata] at hchanges
  have hnone : s.changes.hasChanges = false := by
    rw [hchanges]
    decide +kernel
  have hover : Overwritten options.paths [] (.map record) (.map s.extraction.data) := by
    rw [← he, hdata]
    have hhere : Overwritten options.paths (text "a") (.text (text "y")) (.text (text "x")) :=
      .here (by decide +kernel) (by simp [Value.isMap, Value.entries?]) (by decide +kernel)
        (.value rfl)
    exact .nested rfl (List.mem_singleton.mpr rfl) (by decide +kernel) hhere
  refine ⟨s, hs, hnone, hover, ?_⟩
  have hrecord : (Value.map record).WellFormed := ⟨List.pairwise_singleton _ _, trivial, trivial⟩
  have hyield : Extractors.YieldWellFormed [] := by
    intro name extractor content v hget
    simp at hget
  have := equal_updated_iff_not_overwritten hrecord hyield rfl hs hnone
  cases heq : Value.equal (.map record) s.updated with
  | false => rfl
  | true => exact absurd hover (this.mp heq)

end InverseTemplate
