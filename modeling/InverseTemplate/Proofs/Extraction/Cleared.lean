/-
# Cleared values

Someone who edits a rendered text may clear a value: nothing is left between its literals.  A slot
whose value was cleared is reported as unmatched and no other value moves into its place, as long as
the literals behind cleared slots have text in them.

A mere gap is not enough.  In front of a gap the blanks at the cursor are passed over first, so the
gap behind a cleared value is taken for the margin of the next value, and that one is what the slot
receives.
-/
import InverseTemplate.Proofs.Extraction.Plain
import InverseTemplate.Proofs.Markdown.Fence

namespace InverseTemplate

/-- Values that are cleared or made of characters that no literal of the template has. -/
structure Template.Clears (template : Template) (values : List Text) : Prop where
  length_eq : values.length = template.slots.length
  marks : ∀ v ∈ values, ∀ c ∈ v, Text.isBlank c = false ∧ ∀ literal ∈ template.literals, c ∉ literal
  fenceFree : FenceFree (template.fill values)

namespace Template.Clears

variable {template : Template} {values : List Text}

theorem length_parts (h : template.Clears values) : values.length = template.parts.length := by
  rw [h.length_eq, slots, List.length_map]

/-- Up to a slot all values can be told from the literals behind them, if none of them is a cleared
one in front of a mere gap. -/
theorem readable (h : template.Clears values) (hplain : template.Plain) {i : Nat}
    (hgap : ∀ pair ∈ (template.parts.zip values).dropLast.take (i + 1),
      Text.AllBlank pair.1.2 → pair.2 ≠ []) : Readable (i + 1) template.parts values := by
  refine hplain.readable h.length_parts ?_ ?_
  · intro pair hpair
    obtain ⟨hpart, hv⟩ := List.of_mem_zip (List.mem_of_mem_take hpair)
    have hmarks := h.marks pair.2 hv
    refine ⟨Text.strip_eq_self_of_forall fun c hc => (hmarks c hc).1, fun hfeed => ?_,
      fun c hc hmem => ?_⟩
    · exact absurd (hmarks _ hfeed).1 (by decide)
    · exact (hmarks c hmem).2 pair.1.2 (List.mem_cons_of_mem _ (List.mem_map_of_mem hpart))
        (Text.mem_of_mem_strip (List.mem_of_head? hc))
  · intro pair hpair hblank
    have hv := (List.of_mem_zip (List.dropLast_subset _ (List.mem_of_mem_take hpair))).2
    exact ⟨hgap pair hpair hblank,
      fun _ c hc => isHorizontal_eq_false (h.marks pair.2 hv c hc).1⟩

end Template.Clears

/-- A cleared slot in front of a mere gap receives the value of the next slot, which is reported in
its stead. -/
theorem extract_moves_over_gap :
    let source := text "\x7ba\x7d \x7bb\x7d"
    let values := [[], text "y"]
    (Template.ofText source).Plain ∧ (Template.ofText source).Clears values ∧
      ∃ e : Extraction,
        extract {} {} none source ((Template.ofText source).fill values) = .ok e ∧
          e.unmatched = [text "b"] ∧
          Value.getPath? (.map e.data) [text "a"] = some (.text (text "y")) := by
  intro source values
  have hplain : (Template.ofText source).Plain := by
    constructor <;> decide +kernel
  have hvalues : (Template.ofText source).Clears values := by
    constructor <;> decide +kernel
  let rendered := (Template.ofText source).fill values
  let captures := (Captures.find {} (Template.ofText source) rendered).captures
  have hfind : (Captures.find {} (Template.ofText source) rendered).captures = captures := rfl
  have hwrites : captures.filterMap Capture.write? = [([text "a"], text "y")] := by decide +kernel
  have hmissed : (missed captures).map Slot.label = [text "b"] := by decide +kernel
  obtain ⟨e, hextract, hdata, hunmatched, -⟩ :=
    exists_extract {} {} none hplain.expressions hfind
  refine ⟨hplain, hvalues, e, hextract, hunmatched.trans hmissed, ?_⟩
  rw [hdata, hwrites]
  rfl

/-- Every slot up to the first cleared one in front of a mere gap is unmatched if its value was
cleared, and otherwise has its own value. -/
theorem extract_cleared (settings : Settings) (options : ExtractOptions) (strict : Option Bool)
    {source : Text} {values : List Text} (hplain : (Template.ofText source).Plain)
    (hvalues : (Template.ofText source).Clears values) :
    ∃ e : Extraction,
      extract settings options strict source ((Template.ofText source).fill values) =
          e.demand (strict.getD settings.strict) ∧
        ∀ i slot v, (Template.ofText source).slots[i]? = some slot → values[i]? = some v →
          (∀ pair ∈ ((Template.ofText source).parts.zip values).dropLast.take (i + 1),
            Text.AllBlank pair.1.2 → pair.2 ≠ []) →
          if v = [] then
            slot.label ∈ e.unmatched ∧
              Value.getPath? (.map e.data) (Path.split slot.label) = none
          else Value.getPath? (.map e.data) (Path.split slot.label) = some (.text v) := by
  have hslots := map_slot_find settings (Template.ofText source)
    ((Template.ofText source).fill values)
  generalize hfind : (Captures.find settings (Template.ofText source)
    ((Template.ofText source).fill values)).captures = captures at hslots
  obtain ⟨e, hextract, hdata, hunmatched, -⟩ :=
    exists_extract settings options strict hplain.expressions hfind
  refine ⟨e, hextract, fun i slot v hslot hv hgap => ?_⟩
  have hi : i < (Template.ofText source).parts.length := by
    rw [← hvalues.length_parts]
    exact (List.getElem?_eq_some_iff.mp hv).1
  obtain ⟨c, hc, hvalue⟩ := Captures.value?_find settings (fences_eq_nil hvalues.fenceFree)
    (hplain.spacing _ (List.mem_cons_self ..)) (hvalues.readable hplain hgap) (Nat.lt_succ_self i)
    hi hv
  rw [hfind] at hc
  have hmem := List.mem_of_getElem? hc
  have hcslot : c.slot = slot := by
    rw [← hslots, List.getElem?_map, hc, Option.map_some, Option.some.injEq] at hslot
    exact hslot
  have hget := hplain.getPath?_writeTexts hslots hmem
  rw [← hdata, hcslot, hvalue] at hget
  split
  · next hempty =>
      rw [if_pos hempty] at hvalue hget
      refine ⟨?_, hget⟩
      rw [hunmatched, ← hcslot]
      exact List.mem_map_of_mem (List.mem_map_of_mem (List.mem_filter.mpr ⟨hmem, by simp [hvalue]⟩))
  · next hne =>
      rw [if_neg hne] at hget
      exact hget

/-- The first and the last of four values are cleared; a mere gap stands behind the third. -/
theorem extract_cleared_ends :
    let source := text "\x7ba\x7d: \x7bb\x7d\n# \x7bc\x7d\n\n\x7bd\x7d"
    let values := [[], text "x", text "y", []]
    (Template.ofText source).Plain ∧ (Template.ofText source).Clears values ∧
      ∃ e : Extraction,
        extract {} {} none source (text ": x\n# y\n\n") = .ok e ∧
          text "a" ∈ e.unmatched ∧ Value.getPath? (.map e.data) [text "a"] = none ∧
          Value.getPath? (.map e.data) [text "b"] = some (.text (text "x")) ∧
          Value.getPath? (.map e.data) [text "c"] = some (.text (text "y")) ∧
          text "d" ∈ e.unmatched ∧ Value.getPath? (.map e.data) [text "d"] = none := by
  intro source values
  have hplain : (Template.ofText source).Plain := by
    constructor <;> decide +kernel
  have hvalues : (Template.ofText source).Clears values := by
    constructor <;> decide +kernel
  have hfill : (Template.ofText source).fill values = text ": x\n# y\n\n" := by decide +kernel
  obtain ⟨e, hextract, hslot⟩ := extract_cleared {} {} none hplain hvalues
  rw [hfill] at hextract
  have hgap : ∀ pair ∈ ((Template.ofText source).parts.zip values).dropLast,
      Text.AllBlank pair.1.2 → pair.2 ≠ [] := by decide +kernel
  have hfound : ∀ (i : Nat) (key : Text) (v : Text),
      (Template.ofText source).slots[i]?.map Slot.label = some key → values[i]? = some v →
      Path.split key = [key] →
      if v = [] then key ∈ e.unmatched ∧ Value.getPath? (.map e.data) [key] = none
      else Value.getPath? (.map e.data) [key] = some (.text v) := by
    intro i key v hkey hv hsplit
    obtain ⟨slot, hi, rfl⟩ := Option.map_eq_some_iff.mp hkey
    have := hslot i slot v hi hv fun pair hpair => hgap pair (List.mem_of_mem_take hpair)
    rwa [hsplit] at this
  obtain ⟨ha, ha'⟩ := hfound 0 (text "a") [] (by decide +kernel) rfl (by decide)
  obtain ⟨hd, hd'⟩ := hfound 3 (text "d") [] (by decide +kernel) rfl (by decide)
  exact ⟨hplain, hvalues, e, hextract, ha, ha',
    hfound 1 (text "b") (text "x") (by decide +kernel) rfl (by decide),
    hfound 2 (text "c") (text "y") (by decide +kernel) rfl (by decide), hd, hd'⟩

end InverseTemplate
