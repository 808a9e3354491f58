/-
# What validation foresees

Validation looks at a template alone and an extraction at a text too, and both sort the slots: into
those that plain matching can recover and those that need help, and into those that were filled and
those that were left over.  Without extractors the two agree as far as they can.  What needs help is
always left over, and what is left over besides is one of the plain paths, because the value of a
plain path is the only thing that fills a slot.

Labels may repeat, and the label of a slot that needs help may be that of a plain path, so the two
are compared by slots.  The lists of labels follow.
-/
import InverseTemplate.Proofs.Extraction.Plain
import InverseTemplate.Validation

namespace InverseTemplate

/-! ## Slots that are left over -/

theorem Capture.isNone_write?_of_not_isExtractable {c : Capture}
    (h : c.slot.isExtractable = false) : c.write?.isNone = true := by
  have hkind : c.slot.kind ≠ .expression := of_decide_eq_false h
  unfold write?
  split
  · next hcontent _ => exact absurd (by rw [Slot.kind, hcontent]) hkind
  · rfl

theorem unwritten_sublist (captures : List Capture) :
    (unwritten captures).Sublist (captures.map Capture.slot) :=
  List.filter_sublist.map Capture.slot

theorem filter_unwritten (captures : List Capture) :
    (unwritten captures).filter (fun slot => !slot.isExtractable) =
      (captures.map Capture.slot).filter fun slot => !slot.isExtractable := by
  unfold unwritten
  rw [List.filter_map, List.filter_map, List.filter_filter]
  congr 1
  refine List.filter_congr fun c _ => ?_
  cases h : c.slot.isExtractable with
  | true => simp [h]
  | false => simp [h, Capture.isNone_write?_of_not_isExtractable h]

namespace Validation

/-- Every slot is either recovered by plain matching or needs help. -/
theorem length_extractable_add_length_needsAssistance (slots : List Slot) :
    (ofSlots slots).extractable.length + (ofSlots slots).needsAssistance.length =
      slots.length := by
  have h := List.length_eq_countP_add_countP Slot.isExtractable (l := slots)
  rw [List.countP_eq_length_filter, List.countP_eq_length_filter] at h
  simp only [ofSlots, List.length_map]
  simpa using h.symm

/-! ## Extraction after validation -/

/-- Without extractors a tolerant extraction has an outcome, and it leaves over every slot that
needs help and, of the others, those for which the scan has no value.  So the labels that
validation lists as needing help are unmatched, in their order; the unmatched labels of the other
slots are listed as extractable, in their order; each slot is in one of the two lists; and where
nothing is unmatched the template is valid. -/
theorem foresees_unmatched (settings : Settings) {options : ExtractOptions} {strict : Option Bool}
    (hextractors : options.extractors = []) (hstrict : strict.getD settings.strict = false)
    (source rendered : Text) :
    let v := ofText source
    let left := unwritten (Captures.find settings (Template.ofText source) rendered).captures
    ∃ e, extract settings options strict source rendered = .ok e ∧
      e.unmatched = left.map Slot.label ∧
      left.Sublist v.slots ∧
      left.filter (fun slot => !slot.isExtractable) =
        v.slots.filter (fun slot => !slot.isExtractable) ∧
      v.needsAssistance = (left.filter fun slot => !slot.isExtractable).map Slot.label ∧
      v.needsAssistance.Sublist e.unmatched ∧
      ((left.filter Slot.isExtractable).map Slot.label).Sublist v.extractable ∧
      v.extractable.length + v.needsAssistance.length = v.slots.length ∧
      (e.unmatched = [] → v.isValid = true) := by
  intro v left
  obtain ⟨e, he, -, hunmatched, -⟩ := exists_extract_of_not_reads settings options strict
    (fun slot _ => ExtractOptions.not_reads_of_extractors_eq_nil hextractors slot) rfl
  rw [hstrict] at he
  have hslots : v.slots =
      (Captures.find settings (Template.ofText source) rendered).captures.map Capture.slot :=
    (map_slot_find settings (Template.ofText source) rendered).symm
  have hsub : left.Sublist v.slots := by
    rw [hslots]
    exact unwritten_sublist _
  have hfilter : left.filter (fun slot => !slot.isExtractable) =
      v.slots.filter fun slot => !slot.isExtractable := by
    rw [hslots]
    exact filter_unwritten _
  have hneeds : v.needsAssistance =
      (left.filter fun slot => !slot.isExtractable).map Slot.label := by
    rw [hfilter]
    rfl
  have hlabels : v.needsAssistance.Sublist e.unmatched := by
    rw [hneeds, hunmatched]
    exact List.filter_sublist.map Slot.label
  refine ⟨e, he, hunmatched, hsub, hfilter, hneeds, hlabels, ?_, ?_, ?_⟩
  · exact (hsub.filter Slot.isExtractable).map Slot.label
  · exact length_extractable_add_length_needsAssistance _
  · intro hnil
    rw [hnil] at hlabels
    exact List.isEmpty_iff.mpr (List.sublist_nil.mp hlabels)

/-- A call and a component need help; of the two plain paths the one whose section is empty is left
over with them. -/
theorem foresees_unmatched_empty_section :
    let source := text "# \x7bt\x7d\n\n\x7bf(t)\x7d\n\n<C />\n\n## Note\n\n\x7bn\x7d"
    let rendered := text "# T\n\nx\n\n## Note\n\n"
    let v := ofText source
    v.needsAssistance = [text "f(t)", text "<C />"] ∧ v.extractable = [text "t", text "n"] ∧
      ∃ e, extract {} {} (some false) source rendered = .ok e ∧
        e.unmatched = [text "f(t)", text "<C />", text "n"] ∧
        v.needsAssistance.Sublist e.unmatched ∧ (e.unmatched = [] → v.isValid = true) := by
  intro source rendered v
  obtain ⟨e, he, hunmatched, -, -, -, hneeds, -, -, hvalid⟩ :=
    @foresees_unmatched {} {} (some false) rfl rfl source rendered
  refine ⟨by decide +kernel, by decide +kernel, e, he, ?_, hneeds, hvalid⟩
  rw [hunmatched]
  decide +kernel

end Validation

end InverseTemplate
