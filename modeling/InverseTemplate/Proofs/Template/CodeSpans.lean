/-
# Slots in code spans

A code span is literal: where the scan comes to a brace or a less-than sign inside of one, the
lookup among the code regions finds the span, and the scan goes on behind it.  The lookup fails in
one case.  If a fence lies inside the span, the fence is the last region to begin in front of
everything behind it, and there the span is not found any more.  So what can be read in a code
span is a slot exactly if a fence of the span ends in front of it and it does not lie in a fence
itself, at every place that the scan comes to (`Template.slot_in_codeSpan_iff`).

The places that the scan comes to are those of `Visits`, and the slots of a text are what can be
read at those of them around which the lookup finds nothing.
-/
import InverseTemplate.Proofs.Template.Origin

namespace InverseTemplate

/-! ## The lookup in a code span -/

variable {t : Text} {span : Span} {offset : Nat}

/-- In a code span the lookup finds nothing exactly behind a fence of it and outside of fences. -/
theorem containing?_in_codeSpan_eq_none_iff (hspan : span ∈ codeSpans t)
    (hregion : span ∈ codeRegions t) (hholds : span.holds offset = true) :
    Span.containing? (codeRegions t) offset = none ↔
      (∃ block ∈ fences t, span.start < block.start ∧ block.stop ≤ offset) ∧
        ∀ block ∈ fences t, block.holds offset = false := by
  obtain ⟨hstart, hstop⟩ := Span.holds_iff.mp hholds
  constructor
  · intro hnone
    refine ⟨(mem_codeSpans_of_not_containing hregion hstart hstop hnone).2, fun block hblock => ?_⟩
    rw [← Bool.not_eq_true, Span.holds_iff]
    rintro ⟨hbegins, hends⟩
    rw [containing?_codeRegions_of_mem_fences hblock hbegins hends] at hnone
    cases hnone
  · rintro ⟨⟨block, hblock, hinside, hends⟩, hfree⟩
    have hpos := (ordered_fences t).1 block hblock
    obtain ⟨last, hlast, hle, hmax, hcontaining⟩ :=
      Span.exists_last (pairwise_start_codeRegions t) hregion hstart
    have hlater := hmax block (mem_codeRegions.mpr (.inl hblock)) (by omega)
    rw [hcontaining, if_neg]
    intro hlt
    rcases mem_codeRegions.mp hlast with hfence | ⟨hother, -⟩
    · exact Bool.eq_false_iff.mp (hfree last hfence) (Span.holds_iff.mpr ⟨hle, hlt⟩)
    · -- it would be the code span itself, but that begins in front of the fence
      obtain rfl := (ordered_codeSpans t).eq_of_holds hspan hother (by omega) (by omega)
      omega

namespace Template

variable {s : Slot}

/-- A slot begins in a code span exactly if it can be read at a place in the span that the scan
comes to, behind a fence of the span and outside of all fences. -/
theorem slot_in_codeSpan_iff (hspan : span ∈ codeSpans t) (hregion : span ∈ codeRegions t) :
    s ∈ (ofText t).slots ∧ span.holds s.start = true ↔
      ∃ c, Visits (codeRegions t) (Cursor.ofOffset t 0) c ∧ s.ReadAt c ∧
        span.holds c.offset = true ∧
        (∃ block ∈ fences t, span.start < block.start ∧ block.stop ≤ c.offset) ∧
        ∀ block ∈ fences t, block.holds c.offset = false := by
  rw [ofText, mem_slots_ofPieces, pieces, slot_mem_piecesFrom_iff]
  constructor
  · rintro ⟨⟨c, hvisits, hnone, hread⟩, hholds⟩
    rw [hread.start_eq] at hholds
    exact ⟨c, hvisits, hread, hholds,
      (containing?_in_codeSpan_eq_none_iff hspan hregion hholds).mp hnone⟩
  · rintro ⟨c, hvisits, hread, hholds, hlookup⟩
    have hnone := (containing?_in_codeSpan_eq_none_iff hspan hregion hholds).mpr hlookup
    exact ⟨⟨c, hvisits, hnone, hread⟩, by rwa [hread.start_eq]⟩

/-- A code span with a fence of tildes: of the braces inside of it those in the fence are passed
over, and the slot that begins behind has the fence in front of it. -/
theorem slot_in_codeSpan_iff_tildes :
    let t := text "\x60\n~~~\n\x7bx\x7d\n~~~\n\x7by\x7d\x60"
    let s : Slot := ⟨.expression ['y'], text "\x7by\x7d", 14, 17⟩
    ⟨0, 18⟩ ∈ codeSpans t ∧ ⟨0, 18⟩ ∈ codeRegions t ∧ (ofText t).slots = [s] ∧
      Span.holds ⟨0, 18⟩ s.start = true ∧
      ∃ block ∈ fences t, 0 < block.start ∧ block.stop ≤ s.start := by
  intro t s
  have hfences : fences t = [⟨2, 13⟩] := by decide +kernel
  have hspans : codeSpans t = [⟨0, 18⟩] := by decide +kernel
  have hregions : codeRegions t = [⟨0, 18⟩, ⟨2, 13⟩] :=
    codeRegions_eq_pair hfences hspans (by decide)
  have hslots : (ofText t).slots = [s] := by
    rw [ofText, pieces, hregions]
    decide +kernel
  have hspan : ⟨0, 18⟩ ∈ codeSpans t := by
    rw [hspans]
    exact List.mem_singleton_self _
  have hregion : ⟨0, 18⟩ ∈ codeRegions t := by
    rw [hregions]
    exact List.mem_cons_self ..
  have hs : s ∈ (ofText t).slots := by
    rw [hslots]
    exact List.mem_singleton_self s
  obtain ⟨c, -, hread, -, hblock, -⟩ := (slot_in_codeSpan_iff hspan hregion).mp ⟨hs, rfl⟩
  rw [← hread.start_eq] at hblock
  exact ⟨hspan, hregion, hslots, rfl, hblock⟩

/-- A slot in a code span, behind a fence without any lines in it. -/
theorem slot_in_codeSpan_behind_fence :
    let t := text "\x60\n\x60\x60\x60\n\x60\x60\x60\n\x7by\x7d\x60"
    let s : Slot := ⟨.expression ['y'], text "\x7by\x7d", 10, 13⟩
    s ∈ (ofText t).slots ∧ ⟨0, 14⟩ ∈ codeSpans t ∧ ⟨0, 14⟩ ∈ codeRegions t ∧
      Span.holds ⟨0, 14⟩ s.start = true := by
  intro t s
  have hfences : fences t = [⟨2, 9⟩] := by decide +kernel
  have hspans : codeSpans t = [⟨0, 14⟩] := by decide +kernel
  have hregions : codeRegions t = [⟨0, 14⟩, ⟨2, 9⟩] :=
    codeRegions_eq_pair hfences hspans (by decide)
  refine ⟨?_, ?_, ?_, rfl⟩
  · rw [ofText, pieces, hregions]
    decide +kernel
  · rw [hspans]
    exact List.mem_singleton_self _
  · rw [hregions]
    exact List.mem_cons_self ..

end Template

end InverseTemplate
