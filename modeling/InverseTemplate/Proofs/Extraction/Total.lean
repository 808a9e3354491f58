/-
# Extractions that answer

Of all that an extraction does, only two things fail: an extractor, and the demand for
completeness at the end.  An extractor's failure is that of the extraction; else there is an
outcome, and it is made of what was collected.  If every extractor answers, with a map of props or
with nothing, and nothing is demanded, then there is an outcome, whatever the template and the
text are.
-/
import InverseTemplate.Extraction

namespace InverseTemplate

/-! ## From the captures to the outcome -/

section Outcome

variable (settings : Settings) (options : ExtractOptions) (strict : Option Bool)
  {source rendered : Text} {captures : List Capture}

theorem extract_of_ofCaptures_error
    (hfind : (Captures.find settings (Template.ofText source) rendered).captures = captures)
    {failure : Failure} (h : Collected.ofCaptures settings options captures = .error failure) :
    extract settings options strict source rendered = .error failure := by
  unfold extract Extraction.lenient
  dsimp only
  rw [hfind, h]
  rfl

theorem exists_extract_of_ofCaptures
    (hfind : (Captures.find settings (Template.ofText source) rendered).captures = captures)
    {collected : Collected} (h : Collected.ofCaptures settings options captures = .ok collected) :
    ∃ e : Extraction, extract settings options strict source rendered =
        e.demand (strict.getD settings.strict) ∧
      e.data = collected.data ∧
      e.unmatched = collected.unmatched.map Slot.label ∧
      e.confidence =
        options.scorer.score (Template.ofText source).slots collected.unmatched ∧
      e.slots = (Template.ofText source).slots ∧
      e.groups = Entries.ofWrites (captures.map fun c => (c.group, c.raw?)) := by
  unfold extract Extraction.lenient
  dsimp only
  rw [hfind, h]
  exact ⟨_, rfl, rfl, rfl, rfl, rfl, rfl⟩

end Outcome

/-! ## Extractors that answer -/

/-- No extractor fails, and what one yields is a map. -/
def Extractors.Answering (extractors : Extractors) : Prop :=
  ∀ name extractor content, Entries.get? extractors name = some extractor →
    ∃ yielded, extractor.extract content = .ok yielded ∧ ∀ v ∈ yielded, v.isMap = true

theorem Extractors.Answering.exists_props {extractors : Extractors} (h : extractors.Answering)
    {name : Text} {extractor : Extractor} (hget : Entries.get? extractors name = some extractor)
    (content : Text) :
    ∃ yielded, extractor.props content = .ok yielded ∧ ∀ v ∈ yielded, v.isMap = true := by
  unfold Extractor.props
  split
  · exact h name extractor content hget
  · exact ⟨none, rfl, by simp⟩

theorem Placement.exists_place (placement : Placement) (policy : ArrayMerge) (slot : Slot)
    {yielded : Value} (h : yielded.isMap = true) (data : Entries Value) :
    ∃ result, placement.place policy slot yielded data = .ok result := by
  cases yielded with
  | map props => cases placement <;> exact ⟨_, rfl⟩
  | _ => simp [Value.isMap, Value.entries?] at h

namespace Collected

variable {options : ExtractOptions}

theorem exists_addProps (settings : Settings) (placement : Placement) (c : Collected) (slot : Slot)
    {yielded : Option Value} (h : ∀ v ∈ yielded, v.isMap = true) :
    ∃ result, addProps settings placement c slot yielded = .ok result := by
  cases yielded with
  | none => exact ⟨_, rfl⟩
  | some v =>
      obtain ⟨data, hdata⟩ := placement.exists_place settings.arrayMerge slot (h v rfl) c.data
      exact ⟨_, by rw [addProps, hdata]; rfl⟩

theorem exists_add (settings : Settings) (h : options.extractors.Answering) (c : Collected)
    (capture : Capture) : ∃ result, add settings options c capture = .ok result := by
  unfold add
  dsimp only
  split
  · exact ⟨_, rfl⟩
  · split
    · next extractor hget =>
        obtain ⟨yielded, hyielded, hmap⟩ := h.exists_props hget _
        rw [hyielded]
        exact exists_addProps settings options.placement c capture.slot hmap
    · exact ⟨_, rfl⟩
  · exact ⟨_, rfl⟩

theorem exists_foldlM_add (settings : Settings) (h : options.extractors.Answering)
    (captures : List Capture) (c : Collected) :
    ∃ result, captures.foldlM (add settings options) c = .ok result := by
  induction captures generalizing c with
  | nil => exact ⟨c, rfl⟩
  | cons capture rest ih =>
      obtain ⟨next, hnext⟩ := exists_add settings h c capture
      rw [List.foldlM_cons, hnext]
      exact ih next

end Collected

/-- With extractors that answer, an extraction that is not strict has an outcome. -/
theorem exists_extract_of_answering {settings : Settings} {options : ExtractOptions}
    {strict : Option Bool} (h : options.extractors.Answering)
    (hstrict : strict.getD settings.strict = false) (source rendered : Text) :
    ∃ e, extract settings options strict source rendered = .ok e := by
  obtain ⟨collected, hcollected⟩ := Collected.exists_foldlM_add settings h
    (Captures.find settings (Template.ofText source) rendered).captures .empty
  obtain ⟨e, he, -⟩ := exists_extract_of_ofCaptures settings options strict rfl hcollected
  rw [hstrict] at he
  exact ⟨e, he⟩

end InverseTemplate
