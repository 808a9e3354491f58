/-
# Debug groups

An extraction reports its captures in a map, under the names of their groups; of two captures
under one name only the later one would be left.  No two share a name: whatever the settings put
in front, and whatever is left of the slot's path or name, a group's name ends with a low line and
the number of its slot.  There is no low line among digits, so the number begins behind the last
low line of the name.

So the map has one entry for every slot, in the order of the template, whether the extraction is
accepted or refused for being incomplete (`extract_groups`).
-/
import InverseTemplate.Proofs.Extraction.Plain

namespace InverseTemplate

/-! ## Names -/

namespace Settings

variable (settings : Settings)

theorem exists_splitOn_groupName (slot : Slot) (index : Nat) :
    ∃ pieces, List.splitOn '_' (settings.groupName slot index) = pieces ++ [Text.ofNat index] := by
  have hdigits : '_' ∉ Text.ofNat index := Text.not_mem_ofNat (by decide)
  rw [groupName]
  exact ⟨_, by rw [List.splitOn_append_cons_self, List.splitOn_eq_singleton hdigits]⟩

/-- A group's name tells the number of its slot. -/
theorem eq_of_groupName_eq {slot other : Slot} {i j : Nat}
    (h : settings.groupName slot i = settings.groupName other j) : i = j := by
  obtain ⟨pieces, hi⟩ := settings.exists_splitOn_groupName slot i
  obtain ⟨pieces', hj⟩ := settings.exists_splitOn_groupName other j
  rw [h, hj] at hi
  have hlast : [Text.ofNat j] = [Text.ofNat i] := (List.append_inj' hi rfl).2
  exact (Text.ofNat_injective (List.singleton_inj.mp hlast)).symm

/-- The names of the groups of a template's slots. -/
def groupNames (slots : List Slot) : List Text :=
  slots.mapIdx fun index slot => settings.groupName slot index

theorem nodup_groupNames (slots : List Slot) : (settings.groupNames slots).Nodup := by
  refine List.pairwise_iff_getElem.mpr fun i j hi hj hlt hsame => ?_
  simp only [groupNames, List.getElem_mapIdx] at hsame
  exact Nat.ne_of_lt hlt (settings.eq_of_groupName_eq hsame)

end Settings

/-! ## Captures -/

namespace Captures

variable (settings : Settings)

theorem map_group_ofParts (blocks : List Span) (t : Text) (index : Nat) (scan : Scan)
    (parts : List (Slot × Text)) :
    (ofParts settings blocks t index scan parts).captures.map Capture.group =
      (parts.map Prod.fst).mapIdx fun i slot => settings.groupName slot (index + i) := by
  induction parts generalizing index scan with
  | nil => rfl
  | cons part rest ih =>
      obtain ⟨slot, literal⟩ := part
      simp only [ofParts, List.map_cons, List.mapIdx_cons, ih, Nat.add_zero, Nat.add_assoc,
        Nat.add_comm 1]

theorem map_group_find (template : Template) (t : Text) :
    (find settings template t).captures.map Capture.group = settings.groupNames template.slots := by
  unfold find
  simp only [map_group_ofParts, Nat.zero_add]
  rfl

theorem group_of_getElem? {template : Template} {t : Text} {i : Nat} {c : Capture}
    (h : (find settings template t).captures[i]? = some c) :
    c.group = settings.groupName c.slot i := by
  have hname : ((find settings template t).captures.map Capture.group)[i]? =
      (settings.groupNames ((find settings template t).captures.map Capture.slot))[i]? := by
    rw [map_group_find, map_slot_find]
  simpa [Settings.groupNames, h] using hname

/-- What is reported of captures: what each of them found, under the name of its group. -/
def groups (captures : List Capture) : Entries (Option Text) :=
  captures.map fun c => (c.group, c.raw?)

theorem keys_groups (captures : List Capture) :
    Entries.keys (groups captures) = captures.map Capture.group := by
  rw [groups, Entries.keys, List.map_map]
  rfl

theorem nodupKeys_groups_find (template : Template) (t : Text) :
    Entries.NodupKeys (groups (find settings template t).captures) := by
  rw [Entries.NodupKeys, keys_groups, map_group_find]
  exact settings.nodup_groupNames template.slots

end Captures

/-! ## The report -/

theorem Extraction.groups_of_demand {e : Extraction} {strict : Bool} {report : Unmatched}
    (h : e.demand strict = .error (.unmatched report)) : report.groups = e.groups := by
  unfold demand at h
  split at h
  · cases h
    rfl
  · simp at h

/-- If the extractors fail an extraction fails as they do, and else it has an outcome, which reports
one group for every slot, in the order of the slots, with what the slot's capture found. -/
theorem extract_groups (settings : Settings) (options : ExtractOptions) (strict : Option Bool)
    (source rendered : Text) :
    let slots := (Template.ofText source).slots
    let captures := (Captures.find settings (Template.ofText source) rendered).captures
    (settings.groupNames slots).Nodup ∧ captures.map Capture.slot = slots ∧
    (∀ failure, Collected.ofCaptures settings options captures = .error failure →
      extract settings options strict source rendered = .error failure) ∧
    ∀ collected, Collected.ofCaptures settings options captures = .ok collected →
      ∃ e : Extraction,
        extract settings options strict source rendered = e.demand (strict.getD settings.strict) ∧
        (∀ report, extract settings options strict source rendered = .error (.unmatched report) →
          report.groups = e.groups) ∧
        e.slots = slots ∧
        Entries.keys e.groups = settings.groupNames slots ∧
        e.groups.map Prod.snd = captures.map Capture.raw? ∧
        ∀ i c, captures[i]? = some c →
          Entries.get? e.groups (settings.groupName c.slot i) = some c.raw? := by
  intro slots captures
  have hnodup : Entries.NodupKeys (Captures.groups captures) :=
    Captures.nodupKeys_groups_find settings (Template.ofText source) rendered
  refine ⟨settings.nodup_groupNames slots, map_slot_find .., fun failure hfailure =>
    extract_of_ofCaptures_error settings options strict rfl hfailure,
    fun collected hcollected => ?_⟩
  obtain ⟨e, hextract, -, -, -, hslots, hgroups⟩ :=
    exists_extract_of_ofCaptures settings options strict rfl hcollected
  have hall : e.groups = Captures.groups captures :=
    hgroups.trans (Entries.ofWrites_of_nodupKeys hnodup)
  refine ⟨e, hextract, fun report hreport => Extraction.groups_of_demand (hextract ▸ hreport),
    hslots, ?_⟩
  rw [hall]
  refine ⟨?_, ?_, fun i c hc => ?_⟩
  · rw [Captures.keys_groups, Captures.map_group_find]
  · rw [Captures.groups, List.map_map]
    rfl
  · rw [← Captures.group_of_getElem? settings hc]
    exact Entries.get?_of_mem hnodup (List.mem_map_of_mem (List.mem_of_getElem? hc))

/-- The leads are the same, and the whole name of the second group begins the names of the two
others; the slots that are not located have their groups too. -/
theorem extract_groups_same_lead :
    let settings : Settings := { groupLead := text "g_", componentGroupLead := text "g_" }
    let source := text "\x7bx_1\x7d, \x7bx\x7d: <X_1 />"
    let rendered := text "1, 2 3"
    let captures := (Captures.find settings (Template.ofText source) rendered).captures
    ∃ collected, Collected.ofCaptures settings {} captures = .ok collected ∧
      captures.map Capture.raw? = [some (text "1"), none, none] ∧
      ∃ e : Extraction, extract settings {} (some true) source rendered = e.demand true ∧
        e.groups.map Prod.snd = [some (text "1"), none, none] ∧
        Entries.keys e.groups = [text "g_x_1_0", text "g_x_1", text "g_x_1_2"] := by
  intro settings source rendered captures
  have hcollected : Collected.ofCaptures settings {} captures = .ok _ :=
    Collected.ofCaptures_of_not_reads settings {} fun c _ =>
      ExtractOptions.not_reads_of_extractors_eq_nil rfl c.slot
  have hraw : captures.map Capture.raw? = [some (text "1"), none, none] := by decide +kernel
  obtain ⟨-, -, -, hok⟩ := extract_groups settings {} (some true) source rendered
  obtain ⟨e, hextract, -, -, hkeys, hvalues, -⟩ := hok _ hcollected
  have hnames : settings.groupNames (Template.ofText source).slots =
      [text "g_x_1_0", text "g_x_1", text "g_x_1_2"] := by decide +kernel
  exact ⟨_, hcollected, hraw, e, hextract, hvalues.trans hraw, hkeys.trans hnames⟩

end InverseTemplate
