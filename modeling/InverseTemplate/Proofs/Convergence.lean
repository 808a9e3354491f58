/-
# Syncing twice

A sync that replaces arrays has done all it will do.  A second sync of the same text into its
outcome extracts the same data, because extraction does not look at the record; it leaves the
outcome as it is, and it reports what the record has beyond the data, as the first sync did, and
nothing else.
-/
import InverseTemplate.Proofs.Extraction.Total
import InverseTemplate.Proofs.Merge.Settled
import InverseTemplate.Proofs.Sync

namespace InverseTemplate

theorem syncEdits_of_extract {settings : Settings} {extractors : Extractors}
    {options : MergeOptions} {source edited : Text} {e : Extraction}
    (h : extract settings { extractors, placement := settings.placement } none source edited =
      .ok e) (base : Value) :
    syncEdits settings extractors options source base edited =
      .ok ⟨applyExtracted (options.policy settings) options.paths base (.map e.data),
        Difference.between options.paths base (.map e.data), e⟩ := by
  rw [syncEdits, h]
  rfl

theorem wellFormed_updated {settings : Settings} {extractors : Extractors} {options : MergeOptions}
    {source edited : Text} {record : Entries Value} {s : SyncResult}
    (hrecord : (Value.map record).WellFormed) (hyield : extractors.YieldWellFormed)
    (h : syncEdits settings extractors options source (.map record) edited = .ok s) :
    s.updated.WellFormed := by
  obtain ⟨hextract, hupdated, -⟩ := exists_extract_of_syncEdits h
  have hdata := wellFormed_extract hyield hextract
  rw [hupdated]
  exact Merge.wellFormed_applyExtracted hrecord hdata

/-- A sync that replaces arrays and is not strict has an outcome if its extractors answer; and
whenever it has one, syncing the same text into the outcome succeeds, leaves it equal to itself,
adds and modifies nothing, and reports the same paths as removed. -/
theorem syncEdits_settles {settings : Settings} {extractors : Extractors} {options : MergeOptions}
    {source edited : Text} {record : Entries Value} (hrecord : (Value.map record).WellFormed)
    (hyield : extractors.YieldWellFormed) (hpolicy : options.policy settings = .replace) :
    (extractors.Answering → settings.strict = false →
      ∃ s, syncEdits settings extractors options source (.map record) edited = .ok s) ∧
    ∀ s, syncEdits settings extractors options source (.map record) edited = .ok s →
      ∃ again, syncEdits settings extractors options source s.updated edited = .ok again ∧
        Value.equal again.updated s.updated = true ∧
        again.changes.added = [] ∧ again.changes.modified = [] ∧
        again.changes.removed = s.changes.removed := by
  constructor
  · intro hanswering hstrict
    obtain ⟨e, he⟩ := @exists_extract_of_answering settings
      { extractors, placement := settings.placement } none hanswering hstrict source edited
    exact ⟨_, syncEdits_of_extract he (.map record)⟩
  · intro s hs
    have hwf := wellFormed_updated hrecord hyield hs
    obtain ⟨hextract, hupdated, hchanges⟩ := exists_extract_of_syncEdits hs
    have hdata := wellFormed_extract hyield hextract
    rw [hpolicy] at hupdated
    have hagain : applyExtracted .replace options.paths s.updated (.map s.extraction.data) =
        s.updated := by
      rw [hupdated]
      exact Merge.applyExtracted_again hdata
    have hbetween : Difference.between options.paths s.updated (.map s.extraction.data) =
        ⟨[], [], s.changes.removed⟩ := by
      rw [hupdated, hchanges]
      exact Difference.between_applyExtracted hdata
    refine ⟨_, syncEdits_of_extract hextract s.updated, ?_⟩
    rw [hpolicy, hagain, hbetween]
    exact ⟨Value.equal_refl _ hwf, rfl, rfl, rfl⟩

theorem data_of_syncEdits {settings : Settings} {extractors : Extractors} {options : MergeOptions}
    {source edited : Text} {base : Value} {s : SyncResult}
    (hslots : ∀ slot ∈ (Template.ofText source).slots, slot.kind = .expression)
    (h : syncEdits settings extractors options source base edited = .ok s) :
    s.extraction.data = Entries.writeTexts []
      ((Captures.find settings (Template.ofText source) edited).captures.filterMap
        Capture.write?) := by
  obtain ⟨hextract, -⟩ := exists_extract_of_syncEdits h
  obtain ⟨e, he, hdata, -⟩ := exists_extract settings
    { extractors, placement := settings.placement } none hslots rfl
  rw [he] at hextract
  unfold Extraction.demand at hextract
  split at hextract
  · simp at hextract
  · cases hextract
    exact hdata

/-- Of the one selected branch a value is replaced and another one, which is not in the text, is
kept.  The second sync reports the latter and nothing else. -/
theorem syncEdits_settles_below_selector :
    let source := text "\x7ba.b\x7d"
    let record := [(text "a", Value.map [(text "b", .text (text "old")), (text "c", .null)]),
      (text "d", .bool true)]
    let options : MergeOptions := { paths := some [text "a"] }
    ∃ s again, syncEdits {} [] options source (.map record) (text "new") = .ok s ∧
      Entries.keys s.changes.modified = [text "a.b"] ∧ s.changes.removed = [text "a.c"] ∧
      syncEdits {} [] options source s.updated (text "new") = .ok again ∧
      Value.equal again.updated s.updated = true ∧
      again.changes.added = [] ∧ again.changes.modified = [] ∧
      again.changes.removed = s.changes.removed := by
  intro source record options
  have hrecord : (Value.map record).WellFormed :=
    ⟨show (Entries.keys record).Nodup by decide +kernel,
      ⟨show [text "b", text "c"].Nodup by decide +kernel, trivial, trivial, trivial⟩, trivial,
      trivial⟩
  have hyield : Extractors.YieldWellFormed [] := by
    intro name extractor content v hget
    simp at hget
  have hanswering : Extractors.Answering [] := by
    intro name extractor content hget
    simp at hget
  obtain ⟨hexists, hsettles⟩ :=
    @syncEdits_settles {} [] options source (text "new") record hrecord hyield rfl
  obtain ⟨s, hs⟩ := hexists hanswering rfl
  obtain ⟨again, hagain⟩ := hsettles s hs
  have hslots : ∀ slot ∈ (Template.ofText source).slots, slot.kind = .expression := by
    decide +kernel
  have hwrites : (Captures.find {} (Template.ofText source) (text "new")).captures.filterMap
      Capture.write? = [([text "a", text "b"], text "new")] := by decide +kernel
  have hdata : s.extraction.data =
      [(text "a", .map [(text "b", .text (text "new"))])] := by
    rw [data_of_syncEdits hslots hs, hwrites]
    rfl
  obtain ⟨-, -, hchanges⟩ := exists_extract_of_syncEdits hs
  rw [hdata] at hchanges
  refine ⟨s, again, hs, ?_, ?_, hagain⟩
  · rw [hchanges]
    decide +kernel
  · rw [hchanges]
    decide +kernel

end InverseTemplate
