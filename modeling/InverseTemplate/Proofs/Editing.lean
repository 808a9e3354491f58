/-
# Syncing an edited document

A document is rendered from a record through a template of plain paths, and some of the texts in it
are edited.  As long as the edited texts can be told from the literals, a sync does to the record
what was done to the document: it sets the texts at their paths, whatever the array policy, and
leaves everything else.  The reported changes are the texts that differ, each once; nothing is
added; and what the record has beyond the template is kept, but reported as removed, since it is
not in the document.
-/
import InverseTemplate.Proofs.Convergence
import InverseTemplate.Proofs.Difference.Written
import InverseTemplate.Proofs.Extraction.RoundTrip

namespace InverseTemplate

namespace Edit

variable {record : Entries Value} {edits : List Edit} {template : Template}

theorem applicable_of_plain (hplain : template.Plain)
    (hslots : edits.map Edit.path = template.slots.map Slot.label)
    (hheld : ∀ edit ∈ edits,
      Value.getPath? (.map record) (Path.split edit.path) = some (.text edit.before)) :
    Applicable record edits := by
  have hlabels : (template.slots.map Slot.label).Pairwise fun a b =>
      Path.Apart (Path.split a) (Path.split b) := List.pairwise_map.mpr hplain.pairwise_slots
  rw [← hslots, List.pairwise_map] at hlabels
  exact ⟨hheld, hlabels⟩

theorem map_write_eq (hslots : edits.map Edit.path = template.slots.map Slot.label) :
    (template.slots.zip (edits.map Edit.after)).map
      (fun pair => (Path.split pair.1.label, pair.2)) = edits.map write := by
  calc (template.slots.zip (edits.map Edit.after)).map
        (fun pair => (Path.split pair.1.label, pair.2))
    _ = ((template.slots.map Slot.label).zip (edits.map Edit.after)).map
        (fun pair => (Path.split pair.1, pair.2)) := by
          rw [List.zip_map_left, List.map_map]
          rfl
    _ = edits.map write := by
          rw [← hslots, List.zip_map', List.map_map]
          rfl

theorem applyExtracted_data (h : Applicable record edits) (policy : ArrayMerge) :
    applyExtracted policy none (.map record) (.map (data edits)) =
      (Value.map (Entries.writeTexts record (edits.map write))).plain := by
  have hopen : ∀ w ∈ edits.map write, Entries.Open [] w.1 :=
    List.forall_mem_map.mpr fun edit _ => Entries.open_nil (List.splitOn_ne_nil '.' edit.path)
  have hheld : ∀ w ∈ edits.map write,
      ∃ old, Value.getPath? (.map (Value.plainEntries record)) w.1 = some old := by
    refine List.forall_mem_map.mpr fun edit hmem => ⟨.text edit.before, ?_⟩
    have hplain := Value.getPath?_plain (.map record) (Path.split edit.path)
    rw [h.held edit hmem] at hplain
    exact hplain
  rw [applyExtracted, data, Merge.mergeEntries_writeTexts Value.wellFormed_empty hopen
    h.pairwise_writes hheld, Merge.mergeEntries, Value.plain, Entries.plainEntries_writeTexts]

end Edit

/-- Syncing a document in which texts of the record were edited sets these texts and nothing else.
It reports the texts that differ and, as removed, the leaves of the record that the template does
not mention. -/
theorem syncEdits_fill {settings : Settings} {extractors : Extractors} {options : MergeOptions}
    {source : Text} {record : Entries Value} {edits : List Edit} (hpaths : options.paths = none)
    (hplain : (Template.ofText source).Plain) (hrecord : (Value.map record).WellFormed)
    (hnamed : (Value.map record).Named)
    (hslots : edits.map Edit.path = (Template.ofText source).slots.map Slot.label)
    (hheld : ∀ edit ∈ edits,
      Value.getPath? (.map record) (Path.split edit.path) = some (.text edit.before))
    (hvalues : (Template.ofText source).Separates (edits.map Edit.after)) :
    ∃ s, syncEdits settings extractors options source (.map record)
        ((Template.ofText source).fill (edits.map Edit.after)) = .ok s ∧
      s.updated = (Value.map (Entries.writeTexts record (edits.map Edit.write))).plain ∧
      s.changes.added = [] ∧
      s.changes.modified.Perm
        ((edits.filter fun edit => edit.before ≠ edit.after).map Edit.change) ∧
      s.changes.removed.Perm
        (((Value.leavesBelow [] record).map Prod.fst).filter fun p => p ∉ edits.map Edit.path) := by
  have happlicable := Edit.applicable_of_plain hplain hslots hheld
  obtain ⟨e, hextract, hdata, -⟩ := exists_extract_fill settings
    { extractors, placement := settings.placement } none hplain hvalues
  rw [Edit.map_write_eq hslots] at hdata
  have hsync := @syncEdits_of_extract settings extractors options source _ e hextract (.map record)
  rw [hpaths, hdata] at hsync
  exact ⟨_, hsync, Edit.applyExtracted_data happlicable _,
    Difference.added_between_data happlicable,
    Difference.modified_between_data_perm happlicable hnamed,
    Difference.removed_between_data_perm happlicable hnamed hrecord⟩

/-- One of two texts is edited.  What the template does not mention is kept, and reported as
removed. -/
theorem syncEdits_fill_article :
    let source := text "# \x7btitle\x7d\n\nBy \x7bby.name\x7d\n"
    let record (title : Text) := [(text "title", Value.text title),
      (text "by", .map [(text "name", .text (text "Ann Lee")), (text "mail", .text (text "a@b"))]),
      (text "tags", .list [.text (text "x")])]
    let edits := [Edit.mk (text "title") (text "Old") (text "New"),
      ⟨text "by.name", text "Ann Lee", text "Ann Lee"⟩]
    let options : MergeOptions := { arrayMerge := some .append }
    (Template.ofText source).Plain ∧ (Value.map (record (text "Old"))).WellFormed ∧
      (Value.map (record (text "Old"))).Named ∧
      edits.map Edit.path = (Template.ofText source).slots.map Slot.label ∧
      (∀ edit ∈ edits, Value.getPath? (.map (record (text "Old"))) (Path.split edit.path) =
        some (.text edit.before)) ∧
      (Template.ofText source).Separates (edits.map Edit.after) ∧
      ∃ s, syncEdits {} [] options source (.map (record (text "Old")))
          (text "# New\n\nBy Ann Lee\n") = .ok s ∧
        s.updated = .map (record (text "New")) ∧ s.changes.added = [] ∧
        s.changes.modified = [(text "title", ⟨.text (text "Old"), .text (text "New")⟩)] ∧
        s.changes.removed.Perm [text "by.mail", text "tags"] := by
  intro source record edits options
  have hplain : (Template.ofText source).Plain := by
    constructor <;> decide +kernel
  have hrecord : (Value.map (record (text "Old"))).WellFormed :=
    ⟨show [text "title", text "by", text "tags"].Nodup by decide +kernel, trivial,
      ⟨show [text "name", text "mail"].Nodup by decide +kernel, trivial, trivial, trivial⟩,
      ⟨trivial, trivial⟩, trivial⟩
  have hnamed : (Value.map (record (text "Old"))).Named :=
    ⟨show Path.IsName (text "title") by decide +kernel, trivial,
      show Path.IsName (text "by") by decide +kernel,
      ⟨show Path.IsName (text "name") by decide +kernel, trivial,
        show Path.IsName (text "mail") by decide +kernel, trivial, trivial⟩,
      show Path.IsName (text "tags") by decide +kernel, trivial, trivial⟩
  have hslots : edits.map Edit.path = (Template.ofText source).slots.map Slot.label := by
    decide +kernel
  have hheld : ∀ edit ∈ edits,
      Value.getPath? (.map (record (text "Old"))) (Path.split edit.path) =
        some (.text edit.before) :=
    List.forall_mem_cons.mpr ⟨rfl, List.forall_mem_singleton.mpr rfl⟩
  have hvalues : (Template.ofText source).Separates (edits.map Edit.after) := by
    constructor <;> decide +kernel
  have hfill : (Template.ofText source).fill (edits.map Edit.after) =
      text "# New\n\nBy Ann Lee\n" := by decide +kernel
  obtain ⟨s, hsync, hupdated, hadded, hmodified, hremoved⟩ :=
    @syncEdits_fill {} [] options source _ edits rfl hplain hrecord hnamed hslots hheld hvalues
  have hwrites : edits.map Edit.write =
      [([text "title"], text "New"), ([text "by", text "name"], text "Ann Lee")] := by
    decide +kernel
  have hchanged : (edits.filter fun edit => edit.before ≠ edit.after).map Edit.change =
      [(text "title", ⟨.text (text "Old"), .text (text "New")⟩)] := rfl
  have hleft : (((Value.leavesBelow [] (record (text "Old"))).map Prod.fst).filter
      fun p => p ∉ edits.map Edit.path) = [text "by.mail", text "tags"] := by decide +kernel
  rw [hfill] at hsync
  rw [hwrites] at hupdated
  rw [hchanged, List.perm_singleton] at hmodified
  rw [hleft] at hremoved
  exact ⟨hplain, hrecord, hnamed, hslots, hheld, hvalues, s, hsync, hupdated, hadded, hmodified,
    hremoved⟩

end InverseTemplate
