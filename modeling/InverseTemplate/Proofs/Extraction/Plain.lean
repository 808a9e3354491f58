/-
# Templates of plain paths

When every slot of a template is a plain path, extraction cannot fail on the way: its data is what
is left by writing each value that the scan found at its path, and the slots without a value are
reported.  If moreover no path leads to another one or below it, the writes do not meet, and what
the scan found for one slot decides alone what the data holds at that slot's path.

`Template.Plain` collects what the results about rendered texts ask of a template.
-/
import InverseTemplate.Extraction
import InverseTemplate.Proofs.Capture.Complete
import InverseTemplate.Proofs.Capture.Faithful
import InverseTemplate.Proofs.Extraction.Total
import InverseTemplate.Proofs.Value.Place

namespace InverseTemplate

/-- What a capture contributes to the data: its value, at the keys of its path. -/
def Capture.write? (c : Capture) : Option (List Text × Text) :=
  match c.slot.content, c.value? with
  | .expression path, some value => some (Path.split path, value)
  | _, _ => none

/-- The slots of the captures without a value. -/
def missed (captures : List Capture) : List Slot :=
  (captures.filter fun c => c.value?.isNone).map Capture.slot

theorem Slot.exists_path {slot : Slot} (h : slot.kind = .expression) :
    ∃ path, slot.content = .expression path := by
  unfold kind at h
  split at h
  · next path hpath => exact ⟨path, hpath⟩
  · simp at h
  · simp at h
  · simp at h

/-- The slots of the captures that contribute nothing. -/
def unwritten (captures : List Capture) : List Slot :=
  (captures.filter fun c => c.write?.isNone).map Capture.slot

theorem Capture.isNone_write? {c : Capture} (h : c.slot.kind = .expression) :
    c.write?.isNone = c.value?.isNone := by
  obtain ⟨path, hpath⟩ := Slot.exists_path h
  unfold write?
  rw [hpath]
  cases c.value? <;> rfl

theorem unwritten_eq_missed {captures : List Capture}
    (h : ∀ c ∈ captures, c.slot.kind = .expression) : unwritten captures = missed captures :=
  congrArg _ (List.filter_congr fun c hc => Capture.isNone_write? (h c hc))

/-- Is there an extractor for the slot's component? -/
def ExtractOptions.Reads (options : ExtractOptions) (slot : Slot) : Prop :=
  ∃ name ∈ slot.name?, Entries.get? options.extractors name ≠ none

theorem ExtractOptions.not_reads_of_ne_component (options : ExtractOptions) {slot : Slot}
    (h : slot.kind ≠ .component) : ¬ options.Reads slot := by
  rintro ⟨name, hname, -⟩
  unfold Slot.name? at hname
  split at hname
  · next hcontent => exact h (by rw [Slot.kind, hcontent])
  · simp at hname

theorem ExtractOptions.not_reads_of_extractors_eq_nil {options : ExtractOptions}
    (h : options.extractors = []) (slot : Slot) : ¬ options.Reads slot := by
  rintro ⟨name, -, hget⟩
  exact hget (by rw [h, Entries.get?_nil])

namespace Collected

variable (settings : Settings) (options : ExtractOptions)

theorem add_of_not_reads {c : Capture} (h : ¬ options.Reads c.slot) (start : Collected) :
    add settings options start c =
      .ok ⟨Entries.writeTexts start.data c.write?.toList, start.unmatched ++ unwritten [c]⟩ := by
  unfold add Capture.write? unwritten
  cases hcontent : c.slot.content with
  | expression path =>
      cases hv : c.value? <;> simp [Capture.write?, hcontent, hv, miss, Entries.writeTexts]
  | conditional source => simp [Capture.write?, hcontent, miss, Entries.writeTexts]
  | loop source => simp [Capture.write?, hcontent, miss, Entries.writeTexts]
  | component name props children =>
      have hname : c.slot.name? = some name := by rw [Slot.name?, hcontent]
      have hget : Entries.get? options.extractors name = none :=
        Classical.byContradiction fun hne => h ⟨name, hname, hne⟩
      cases hv : c.value? <;>
        simp [Capture.write?, hcontent, hget, miss, Entries.writeTexts]

theorem ofCaptures_of_not_reads {captures : List Capture}
    (h : ∀ c ∈ captures, ¬ options.Reads c.slot) :
    ofCaptures settings options captures =
      .ok ⟨Entries.writeTexts [] (captures.filterMap Capture.write?), unwritten captures⟩ := by
  have hfold : ∀ start : Collected, captures.foldlM (add settings options) start =
      .ok ⟨Entries.writeTexts start.data (captures.filterMap Capture.write?),
        start.unmatched ++ unwritten captures⟩ := by
    induction captures with
    | nil => intro start; simp [unwritten, Entries.writeTexts, pure, Except.pure]
    | cons c rest ih =>
        intro start
        obtain ⟨hc, hrest⟩ := List.forall_mem_cons.mp h
        have hwrites : (c :: rest).filterMap Capture.write? =
            c.write?.toList ++ rest.filterMap Capture.write? := by
          cases hw : c.write? <;> simp [hw]
        have hunwritten : unwritten (c :: rest) = unwritten [c] ++ unwritten rest := by
          unfold unwritten
          rw [← List.map_append, ← List.filter_append]
          rfl
        rw [List.foldlM_cons, add_of_not_reads settings options hc]
        refine (ih hrest _).trans ?_
        rw [hwrites, hunwritten, List.append_assoc]
        unfold Entries.writeTexts
        rw [List.foldl_append]
  exact hfold empty

end Collected

/-! ## The outcome -/

theorem map_slot_find (settings : Settings) (template : Template) (t : Text) :
    (Captures.find settings template t).captures.map Capture.slot = template.slots :=
  Captures.map_slot_ofParts ..

theorem slot_mem_of_mem_find {settings : Settings} {template : Template} {t : Text} {c : Capture}
    (hc : c ∈ (Captures.find settings template t).captures) : c.slot ∈ template.slots := by
  rw [← map_slot_find settings template t]
  exact List.mem_map_of_mem hc

/-- An extraction of slots that no extractor reads has an outcome, and the outcome is what it
answers, if nothing is missed or need not be. -/
theorem exists_extract_of_not_reads (settings : Settings) (options : ExtractOptions)
    (strict : Option Bool) {source rendered : Text} {captures : List Capture}
    (hslots : ∀ slot ∈ (Template.ofText source).slots, ¬ options.Reads slot)
    (hfind : (Captures.find settings (Template.ofText source) rendered).captures = captures) :
    ∃ e : Extraction, extract settings options strict source rendered =
        e.demand (strict.getD settings.strict) ∧
      e.data = Entries.writeTexts [] (captures.filterMap Capture.write?) ∧
      e.unmatched = (unwritten captures).map Slot.label ∧
      e.confidence =
        options.scorer.score (Template.ofText source).slots (unwritten captures) := by
  have hcaptures : ∀ c ∈ captures, ¬ options.Reads c.slot := fun c hc =>
    hslots c.slot (slot_mem_of_mem_find (hfind.symm ▸ hc))
  obtain ⟨e, hextract, hdata, hunmatched, hconfidence, -⟩ :=
    exists_extract_of_ofCaptures settings options strict hfind
      (Collected.ofCaptures_of_not_reads settings options hcaptures)
  exact ⟨e, hextract, hdata, hunmatched, hconfidence⟩

theorem exists_extract_of_ne_component (settings : Settings) (options : ExtractOptions)
    (strict : Option Bool) {source rendered : Text} {captures : List Capture}
    (hslots : ∀ slot ∈ (Template.ofText source).slots, slot.kind ≠ .component)
    (hfind : (Captures.find settings (Template.ofText source) rendered).captures = captures) :
    ∃ e : Extraction, extract settings options strict source rendered =
        e.demand (strict.getD settings.strict) ∧
      e.data = Entries.writeTexts [] (captures.filterMap Capture.write?) ∧
      e.unmatched = (unwritten captures).map Slot.label ∧
      e.confidence =
        options.scorer.score (Template.ofText source).slots (unwritten captures) :=
  exists_extract_of_not_reads settings options strict
    (fun slot hslot => options.not_reads_of_ne_component (hslots slot hslot)) hfind

theorem exists_extract (settings : Settings) (options : ExtractOptions) (strict : Option Bool)
    {source rendered : Text} {captures : List Capture}
    (hslots : ∀ slot ∈ (Template.ofText source).slots, slot.kind = .expression)
    (hfind : (Captures.find settings (Template.ofText source) rendered).captures = captures) :
    ∃ e : Extraction, extract settings options strict source rendered =
        e.demand (strict.getD settings.strict) ∧
      e.data = Entries.writeTexts [] (captures.filterMap Capture.write?) ∧
      e.unmatched = (missed captures).map Slot.label ∧
      e.confidence =
        options.scorer.score (Template.ofText source).slots (missed captures) := by
  have hcaptures : ∀ c ∈ captures, c.slot.kind = .expression := fun c hc =>
    hslots c.slot (slot_mem_of_mem_find (hfind.symm ▸ hc))
  rw [← unwritten_eq_missed hcaptures]
  exact exists_extract_of_ne_component settings options strict
    (fun slot hslot => by simp [hslots slot hslot]) hfind

/-! ## Plain templates -/

/-- A template of plain paths that do not meet, with plain spacing and something between each two
slots. -/
structure Template.Plain (template : Template) : Prop where
  expressions : ∀ slot ∈ template.slots, slot.kind = .expression
  /-- No slot names the place of another one or a place below it. -/
  apart : template.slots.Pairwise fun a b =>
    a.label ≠ b.label ∧ Path.isBelow a.label b.label = false ∧
      Path.isBelow b.label a.label = false
  spacing : ∀ literal ∈ template.literals, Text.PlainSpacing literal
  nonempty : ∀ part ∈ template.parts.dropLast, part.2 ≠ []

theorem mem_dropLast_of_getElem? {α : Type} {l : List α} {i : Nat} {x : α}
    (h : l[i]? = some x) (hi : i + 1 < l.length) : x ∈ l.dropLast :=
  List.mem_of_getElem? (i := i) (by rw [List.getElem?_dropLast, if_pos (by omega), h])

theorem Template.mem_literals_of_getElem? (template : Template) {i : Nat} {slot : Slot}
    {literal : Text} (h : template.parts[i]? = some (slot, literal)) :
    literal ∈ template.literals :=
  List.mem_cons_of_mem _ (List.mem_map_of_mem (f := Prod.snd) (List.mem_of_getElem? h))

theorem Capture.write?_eq_some_iff {c : Capture} (h : c.slot.kind = .expression)
    {write : List Text × Text} :
    c.write? = some write ↔ write.1 = Path.split c.slot.label ∧ c.value? = some write.2 := by
  obtain ⟨path, hpath⟩ := Slot.exists_path h
  obtain ⟨keys, value⟩ := write
  unfold write? Slot.label
  rw [hpath]
  cases hv : c.value? with
  | none => simp
  | some v => simp [eq_comm]

theorem Capture.ne_nil_of_write? {c : Capture} {write : List Text × Text}
    (h : c.write? = some write) : write.1 ≠ [] := by
  unfold write? at h
  split at h
  · cases h
    exact List.splitOn_ne_nil '.' _
  · simp at h

namespace Template.Plain

variable {template : Template} {captures : List Capture}

theorem kind_of_mem (h : template.Plain) (hslots : captures.map Capture.slot = template.slots)
    {c : Capture} (hc : c ∈ captures) : c.slot.kind = .expression :=
  h.expressions c.slot (hslots ▸ List.mem_map_of_mem hc)

theorem pairwise_slots (h : template.Plain) :
    template.slots.Pairwise fun a b => Path.Apart (Path.split a.label) (Path.split b.label) :=
  h.apart.imp Path.apart_split_iff.mpr

theorem pairwise_captures (h : template.Plain)
    (hslots : captures.map Capture.slot = template.slots) :
    captures.Pairwise fun a b =>
      Path.Apart (Path.split a.slot.label) (Path.split b.slot.label) := by
  have hlabels := h.pairwise_slots
  rwa [← hslots, List.pairwise_map] at hlabels

theorem apart_of_ne (h : template.Plain) (hslots : captures.map Capture.slot = template.slots)
    {a b : Capture} (ha : a ∈ captures) (hb : b ∈ captures) (hne : a ≠ b) :
    Path.Apart (Path.split a.slot.label) (Path.split b.slot.label) := by
  obtain ⟨i, hi, rfl⟩ := List.getElem_of_mem ha
  obtain ⟨j, hj, rfl⟩ := List.getElem_of_mem hb
  have hpairwise := List.pairwise_iff_getElem.mp (h.pairwise_captures hslots)
  rcases Nat.lt_trichotomy i j with hlt | rfl | hlt
  · exact hpairwise i j hi hj hlt
  · exact absurd rfl hne
  · exact (hpairwise j i hj hi hlt).symm

theorem pairwise_writes (h : template.Plain)
    (hslots : captures.map Capture.slot = template.slots) :
    (captures.filterMap Capture.write?).Pairwise fun a b => Path.Apart a.1 b.1 := by
  rw [List.pairwise_filterMap]
  refine (List.Pairwise.and_mem.mp (h.pairwise_captures hslots)).imp ?_
  rintro a b ⟨ha, hb, hapart⟩ write hwrite write' hwrite'
  rw [((Capture.write?_eq_some_iff (h.kind_of_mem hslots ha)).mp hwrite).1,
    ((Capture.write?_eq_some_iff (h.kind_of_mem hslots hb)).mp hwrite').1]
  exact hapart

theorem getPath?_writeTexts (h : template.Plain)
    (hslots : captures.map Capture.slot = template.slots) {c : Capture} (hc : c ∈ captures) :
    Value.getPath? (.map (Entries.writeTexts [] (captures.filterMap Capture.write?)))
      (Path.split c.slot.label) = c.value?.map .text := by
  cases hvalue : c.value? with
  | some v =>
      have hwrite : c.write? = some (Path.split c.slot.label, v) :=
        (Capture.write?_eq_some_iff (h.kind_of_mem hslots hc)).mpr ⟨rfl, hvalue⟩
      exact Entries.getPath?_writeTexts [] (h.pairwise_writes hslots)
        (List.mem_filterMap.mpr ⟨c, hc, hwrite⟩) (Capture.ne_nil_of_write? hwrite)
  | none =>
      rw [Entries.getPath?_writeTexts_of_apart]
      · cases hs : Path.split c.slot.label with
        | nil => exact absurd hs (List.splitOn_ne_nil '.' _)
        | cons key rest => rfl
      · intro write hwrite
        obtain ⟨c', hc', hw⟩ := List.mem_filterMap.mp hwrite
        have hw' := (Capture.write?_eq_some_iff (h.kind_of_mem hslots hc')).mp hw
        rw [hw'.1]
        refine h.apart_of_ne hslots hc' hc ?_
        rintro rfl
        rw [hvalue] at hw'
        exact absurd hw'.2 (by simp)

/-- What is asked of the first `n` values of a plain template for each to be told from the literal
behind its slot. -/
theorem readable (h : template.Plain) {values : List Text} {n : Nat}
    (hlength : values.length = template.parts.length)
    (hvalue : ∀ pair ∈ (template.parts.zip values).take n,
      Text.strip pair.2 = pair.2 ∧ '\n' ∉ pair.2 ∧
        ∀ c, (Text.strip pair.1.2).head? = some c → c ∉ pair.2)
    (hgap : ∀ pair ∈ (template.parts.zip values).dropLast.take n, Text.AllBlank pair.1.2 →
      pair.2 ≠ [] ∧ ('\n' ∉ pair.1.2 → ∀ c ∈ pair.2, Text.isHorizontal c = false)) :
    Readable n template.parts values := by
  refine readable_of_forall fun i slot literal v hi hpart hv => ?_
  have hpair : (template.parts.zip values)[i]? = some ((slot, literal), v) :=
    List.getElem?_zip_eq_some.mpr ⟨hpart, hv⟩
  have hzip : (template.parts.zip values).length = template.parts.length := by
    rw [List.length_zip, hlength, Nat.min_self]
  have hlt := (List.getElem?_eq_some_iff.mp hpart).1
  have htake : ((slot, literal), v) ∈ (template.parts.zip values).take n :=
    List.mem_of_getElem? (i := i) (by rw [List.getElem?_take, if_pos hi, hpair])
  obtain ⟨hstrip, hline, hfresh⟩ := hvalue _ htake
  constructor
  · exact hstrip
  · exact hline
  · exact h.spacing literal (template.mem_literals_of_getElem? hpart)
  · intro hlast
    have hlast := of_decide_eq_false hlast
    exact h.nonempty _ (mem_dropLast_of_getElem? hpart (by omega))
  · exact hfresh
  · intro hlast
    have hlast := of_decide_eq_false hlast
    refine hgap ((slot, literal), v) (List.mem_of_getElem? (i := i) ?_)
    rw [List.getElem?_take, if_pos hi, List.getElem?_dropLast, if_pos (by omega), hpair]

end Template.Plain

end InverseTemplate
