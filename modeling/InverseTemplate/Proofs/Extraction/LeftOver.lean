/-
# What an extraction leaves over

Whatever the extractors do, each capture fills its slot or leaves it over.  So what an extraction
reports as unmatched are slots of the template, in the template's order, and the confidence is the
score of just these.
-/
import InverseTemplate.Proofs.Extraction.Plain
import InverseTemplate.Proofs.Extraction.WellFormed

namespace InverseTemplate

namespace Collected

variable {settings : Settings} {options : ExtractOptions}

theorem unmatched_of_add {start result : Collected} {c : Capture}
    (h : add settings options start c = .ok result) :
    result.unmatched = start.unmatched ∨ result.unmatched = start.unmatched ++ [c.slot] := by
  unfold add at h
  dsimp only at h
  split at h
  · cases h
    exact .inl rfl
  · split at h
    · obtain ⟨yielded, -, h⟩ := exists_of_bind_eq_ok h
      cases yielded with
      | none =>
          cases h
          exact .inr rfl
      | some v =>
          obtain ⟨data, -, h⟩ := exists_of_bind_eq_ok h
          cases h
          exact .inl rfl
    · cases h
      exact .inr rfl
  · cases h
    exact .inr rfl

theorem exists_sublist_of_foldlM {captures : List Capture} {start result : Collected}
    (h : captures.foldlM (add settings options) start = .ok result) :
    ∃ left, result.unmatched = start.unmatched ++ left ∧
      left.Sublist (captures.map Capture.slot) := by
  induction captures generalizing start with
  | nil =>
      cases h
      exact ⟨[], by simp, .slnil⟩
  | cons c rest ih =>
      rw [List.foldlM_cons] at h
      obtain ⟨next, hnext, h⟩ := exists_of_bind_eq_ok h
      obtain ⟨left, hleft, hsub⟩ := ih h
      rcases unmatched_of_add hnext with hc | hc
      · exact ⟨left, by rw [hleft, hc], hsub.cons c.slot⟩
      · exact ⟨c.slot :: left, by rw [hleft, hc, List.append_assoc]; rfl, hsub.cons_cons c.slot⟩

end Collected

/-- What meets the demand is the outcome itself, and it is complete if it has to be. -/
theorem Extraction.of_demand {e result : Extraction} {strict : Bool}
    (h : e.demand strict = .ok result) : result = e ∧ (strict = true → e.unmatched = []) := by
  unfold demand at h
  split at h
  · simp at h
  · next hmet =>
      cases h
      refine ⟨rfl, ?_⟩
      rintro rfl
      simpa [matched] using hmet

/-- What an extraction reports as unmatched are slots of the template in their order, and they
decide its confidence. -/
theorem exists_unmatched_of_extract {settings : Settings} {options : ExtractOptions}
    {strict : Option Bool} {source rendered : Text} {e : Extraction}
    (h : extract settings options strict source rendered = .ok e) :
    ∃ left, e.unmatched = left.map Slot.label ∧ left.Sublist (Template.ofText source).slots ∧
      e.confidence = options.scorer.score (Template.ofText source).slots left := by
  obtain ⟨lenient, hlenient, h⟩ := exists_of_bind_eq_ok h
  obtain ⟨collected, hcollected, hlenient⟩ := exists_of_bind_eq_ok hlenient
  obtain ⟨left, hleft, hsub⟩ := Collected.exists_sublist_of_foldlM hcollected
  rw [map_slot_find] at hsub
  cases hlenient
  obtain ⟨rfl, -⟩ := Extraction.of_demand h
  have hunmatched : collected.unmatched = left := hleft
  exact ⟨left, by rw [hunmatched], hsub, by rw [hunmatched]⟩

end InverseTemplate
