/-
# Extraction undoes rendering

A template filled with values that can be told from its literals gives exactly these values back,
each at the path of its slot, with nothing left over and full confidence.

`Template.Separates` is what it takes for the values.  It speaks of literals and values only: no
anchor, no offset, and nothing about where in the text a literal might also be found.
-/
import InverseTemplate.Proofs.Confidence
import InverseTemplate.Proofs.Extraction.Plain
import InverseTemplate.Proofs.Markdown.Fence

namespace InverseTemplate

/-- The character that the text of a literal begins with. -/
def Text.firstMark? (literal : Text) : Option Char := literal.find? fun c => !isBlank c

-- declared anew for the reason that `Text.decidableForallMem` is
instance (priority := high) Text.decidableForallMark (p : Char → Prop) [DecidablePred p]
    (mark : Option Char) :
    Decidable (∀ c ∈ mark, p c) := Option.decidableForallMem mark

/-- Values that can be told from the literals of a template. -/
structure Template.Separates (template : Template) (values : List Text) : Prop where
  length_eq : values.length = template.slots.length
  trimmed : ∀ v ∈ values, v ≠ [] ∧ Text.strip v = v ∧ '\n' ∉ v
  /-- The text behind a slot does not begin inside the slot's value. -/
  fresh : ∀ pair ∈ template.parts.zip values, ∀ c ∈ Text.firstMark? pair.1.2, c ∉ pair.2
  /-- A value with spaces or tabs between its words is not followed by mere spaces and tabs and
  another value. -/
  spaces : ∀ pair ∈ (template.parts.zip values).dropLast,
    (∀ c ∈ pair.1.2, Text.isHorizontal c = true) → ∀ c ∈ pair.2, Text.isHorizontal c = false
  fenceFree : FenceFree (template.fill values)

theorem Text.head?_strip {literal : Text} (h : strip literal ≠ []) :
    (strip literal).head? = firstMark? literal := by
  obtain ⟨c, r, hwords, hc⟩ := (wordRow_strip h).exists_cons
  unfold firstMark?
  conv => rhs; rw [← leadingBlanks_append_strip_append_trailingBlanks h, hwords]
  rw [List.find?_append, List.find?_eq_none.mpr fun d hd => by simp [allBlank_leadingBlanks _ d hd],
    hwords]
  simp [hc]

namespace Template.Separates

variable {template : Template} {values : List Text}

theorem length_parts (h : template.Separates values) : values.length = template.parts.length := by
  rw [h.length_eq, slots, List.length_map]

theorem readable (h : template.Separates values) (hplain : template.Plain) :
    Readable template.parts.length template.parts values := by
  have htrimmed : ∀ pair ∈ template.parts.zip values,
      pair.2 ≠ [] ∧ Text.strip pair.2 = pair.2 ∧ '\n' ∉ pair.2 :=
    fun pair hpair => h.trimmed pair.2 (List.of_mem_zip hpair).2
  refine hplain.readable h.length_parts ?_ ?_
  · intro pair hpair
    have hpair := List.mem_of_mem_take hpair
    obtain ⟨-, hstrip, hline⟩ := htrimmed pair hpair
    refine ⟨hstrip, hline, fun c hc => ?_⟩
    have hblank : Text.strip pair.1.2 ≠ [] := by
      intro h0
      simp [h0] at hc
    rw [Text.head?_strip hblank] at hc
    exact h.fresh pair hpair c hc
  · intro pair hpair hblank
    have hpair := List.mem_of_mem_take hpair
    have hmem := List.dropLast_subset _ hpair
    refine ⟨(htrimmed pair hmem).1, fun hfeed => h.spaces pair hpair fun c hc => ?_⟩
    have hspacing := hplain.spacing pair.1.2
      (List.mem_cons_of_mem _ (List.mem_map_of_mem (List.of_mem_zip hmem).1))
    rcases hspacing c hc (hblank c hc) with rfl | rfl | rfl
    · rfl
    · rfl
    · exact absurd hc hfeed

theorem map_value?_find (h : template.Separates values) (hplain : template.Plain)
    (settings : Settings) :
    (Captures.find settings template (template.fill values)).captures.map Capture.value? =
      values.map some := by
  have hslots := map_slot_find settings template (template.fill values)
  have hlen := congrArg List.length hslots
  rw [List.length_map, ← h.length_eq] at hlen
  refine List.ext_getElem? fun i => ?_
  rw [List.getElem?_map, List.getElem?_map]
  cases hv : values[i]? with
  | none =>
      rw [List.getElem?_eq_none_iff] at hv
      rw [List.getElem?_eq_none (by omega)]
      rfl
  | some v =>
      have hi : i < template.parts.length := by
        rw [← h.length_parts]
        exact (List.getElem?_eq_some_iff.mp hv).1
      obtain ⟨c, hc, hvalue⟩ := Captures.value?_find settings (fences_eq_nil h.fenceFree)
        (hplain.spacing _ (List.mem_cons_self ..)) (h.readable hplain) hi hi hv
      rw [hc, Option.map_some, hvalue, if_neg (h.trimmed v (List.mem_of_getElem? hv)).1]
      rfl

end Template.Separates

theorem filterMap_write?_eq {captures : List Capture} {slots : List Slot} {values : List Text}
    (hkind : ∀ c ∈ captures, c.slot.kind = .expression) (hslots : captures.map Capture.slot = slots)
    (hvalues : captures.map Capture.value? = values.map some) :
    captures.filterMap Capture.write? =
      (slots.zip values).map fun pair => (Path.split pair.1.label, pair.2) := by
  subst hslots
  induction captures generalizing values with
  | nil => rfl
  | cons c rest ih =>
      cases values with
      | nil => simp at hvalues
      | cons v values =>
          rw [List.map_cons, List.map_cons, List.cons.injEq] at hvalues
          obtain ⟨hc, hrest⟩ := List.forall_mem_cons.mp hkind
          have hwrite : c.write? = some (Path.split c.slot.label, v) :=
            (Capture.write?_eq_some_iff hc).mpr ⟨rfl, hvalues.1⟩
          rw [List.filterMap_cons_some hwrite, ih hrest hvalues.2]
          rfl

/-- The data of a filled template is the values, each written at the path of its slot. -/
theorem exists_extract_fill (settings : Settings) (options : ExtractOptions)
    (strict : Option Bool) {source : Text} {values : List Text}
    (hplain : (Template.ofText source).Plain)
    (hvalues : (Template.ofText source).Separates values) :
    ∃ e : Extraction,
      extract settings options strict source ((Template.ofText source).fill values) = .ok e ∧
        e.data = Entries.writeTexts [] (((Template.ofText source).slots.zip values).map
          fun pair => (Path.split pair.1.label, pair.2)) ∧
        e.unmatched = [] ∧ e.confidence = 1 := by
  have hslots := map_slot_find settings (Template.ofText source)
    ((Template.ofText source).fill values)
  have hfound := hvalues.map_value?_find hplain settings
  generalize hfind : (Captures.find settings (Template.ofText source)
    ((Template.ofText source).fill values)).captures = captures at hslots hfound
  have hkind : ∀ c ∈ captures, c.slot.kind = .expression := fun c => hplain.kind_of_mem hslots
  have hmissed : missed captures = [] := by
    unfold missed
    rw [List.map_eq_nil_iff, List.filter_eq_nil_iff]
    intro c hc
    have hvalue : c.value? ∈ values.map some := hfound ▸ List.mem_map_of_mem hc
    obtain ⟨v, -, hv⟩ := List.mem_map.mp hvalue
    simp [← hv]
  obtain ⟨e, hextract, hdata, hunmatched, hconfidence⟩ :=
    exists_extract settings options strict hplain.expressions hfind
  rw [hmissed] at hunmatched hconfidence
  refine ⟨e, ?_, ?_, hunmatched, ?_⟩
  · have hmatched : e.matched = true := by
      unfold Extraction.matched
      rw [hunmatched]
      rfl
    rw [hextract, Extraction.demand, if_neg (by simp [hmatched])]
  · rw [hdata, filterMap_write?_eq hkind hslots hfound]
  · rw [hconfidence, Scorer.score_nil]

theorem Template.Plain.foldl_join_split {source : Text} (h : (Template.ofText source).Plain)
    {slot : Slot} (hslot : slot ∈ (Template.ofText source).slots) :
    (Path.split slot.label).foldl Path.join [] = slot.label := by
  obtain ⟨path, hpath⟩ := Slot.exists_path (h.expressions slot hslot)
  have hlabel : slot.label = path := by
    unfold Slot.label
    rw [hpath]
  rw [hlabel]
  exact Path.foldl_join_split fun key hkey =>
    (Template.namesPath_of_mem_slots hslot).ne_nil_of_mem_split hpath hkey

/-- Extraction undoes rendering: the leaves of the data are the values that the template was filled
with, each at the path of its slot. -/
theorem extract_fill (settings : Settings) (options : ExtractOptions) (strict : Option Bool)
    {source : Text} {values : List Text} (hplain : (Template.ofText source).Plain)
    (hvalues : (Template.ofText source).Separates values) :
    ∃ e : Extraction,
      extract settings options strict source ((Template.ofText source).fill values) = .ok e ∧
        (Value.leavesBelow [] e.data).Perm
          (((Template.ofText source).slots.map Slot.label).zip (values.map .text)) ∧
        e.unmatched = [] ∧ e.confidence = 1 := by
  obtain ⟨e, hextract, hdata, hunmatched, hconfidence⟩ :=
    exists_extract_fill settings options strict hplain hvalues
  refine ⟨e, hextract, ?_, hunmatched, hconfidence⟩
  have hopen : ∀ pair ∈ (Template.ofText source).slots.zip values,
      Entries.Open [] (Path.split pair.1.label) := fun pair _ =>
    Entries.open_nil (List.splitOn_ne_nil '.' pair.1.label)
  have hapart : ((Template.ofText source).slots.zip values).Pairwise fun a b =>
      Path.Apart (Path.split a.1.label) (Path.split b.1.label) := by
    have hzip : ((Template.ofText source).slots.zip values).map Prod.fst =
        (Template.ofText source).slots := List.map_fst_zip (Nat.le_of_eq hvalues.length_eq.symm)
    have hslots := hplain.pairwise_slots
    rwa [← hzip, List.pairwise_map] at hslots
  rw [hdata]
  refine (Entries.leavesBelow_writeTexts (List.forall_mem_map.mpr hopen)
    (List.pairwise_map.mpr hapart) []).trans ?_
  rw [List.map_map, List.zip_map]
  refine List.Perm.of_eq (List.map_congr_left fun pair hpair => ?_)
  exact Prod.ext (hplain.foldl_join_split (List.of_mem_zip hpair).1) rfl

/-- A post with nested paths, literals of every sort and values of several words. -/
theorem extract_fill_post :
    let source := text "# \x7btitle\x7d\n\nBy \x7bby.name\x7d on \x7bby.day\x7d\n\n\x7bbody\x7d\n"
    let values := ["Hello world", "Ann Lee", "May 2", "Some text"].map text
    let rendered := text "# Hello world\n\nBy Ann Lee on May 2\n\nSome text\n"
    (Template.ofText source).Plain ∧ (Template.ofText source).Separates values ∧
      ∃ e : Extraction,
        extract {} {} (some true) source rendered = .ok e ∧
          (Value.leavesBelow [] e.data).Perm
            [(text "title", .text (text "Hello world")), (text "by.name", .text (text "Ann Lee")),
              (text "by.day", .text (text "May 2")), (text "body", .text (text "Some text"))] ∧
          e.unmatched = [] ∧ e.confidence = 1 := by
  intro source values rendered
  have hplain : (Template.ofText source).Plain := by
    constructor <;> decide +kernel
  have hvalues : (Template.ofText source).Separates values := by
    constructor <;> decide +kernel
  have hfill : (Template.ofText source).fill values = rendered := by decide +kernel
  have hlabels : (Template.ofText source).slots.map Slot.label =
      ["title", "by.name", "by.day", "body"].map text := by decide +kernel
  have := extract_fill {} {} (some true) hplain hvalues
  rw [hfill, hlabels] at this
  exact ⟨hplain, hvalues, this⟩

end InverseTemplate
