/-
# Looking up a span

A lookup asks one span only: the last one that starts at or before the offset.  In a list that is in
the order of its starts this is a span whose start no other one exceeds
(`Span.exists_last`), and among spans that lie one behind the other it is the one that holds the
offset, if any does (`Span.containing?_eq_some`).

The fences of a text are such spans: each ends with a line, and the next one begins with a later
line.
-/
import InverseTemplate.Proofs.Markdown.Opening

namespace InverseTemplate

namespace Span

/-- The spans are not empty and lie one behind the other. -/
def Ordered (spans : List Span) : Prop :=
  (∀ s ∈ spans, s.start < s.stop) ∧ spans.Pairwise fun a b => a.stop ≤ b.start

theorem ordered_nil : Ordered [] := ⟨by simp, .nil⟩

theorem ordered_cons_iff {s : Span} {spans : List Span} :
    Ordered (s :: spans) ↔
      s.start < s.stop ∧ (∀ r ∈ spans, s.stop ≤ r.start) ∧ Ordered spans := by
  simp only [Ordered, List.forall_mem_cons, List.pairwise_cons]
  constructor
  · rintro ⟨⟨hs, hpos⟩, hbehind, hrest⟩
    exact ⟨hs, hbehind, hpos, hrest⟩
  · rintro ⟨hs, hbehind, hpos, hrest⟩
    exact ⟨⟨hs, hpos⟩, hbehind, hrest⟩

variable {spans : List Span} {s r : Span} {offset : Nat}

theorem Ordered.pairwise_start (h : Ordered spans) :
    spans.Pairwise fun a b => a.start ≤ b.start := by
  refine h.2.imp_of_mem ?_
  intro a b ha _ hle
  have := h.1 a ha
  omega

theorem Ordered.eq_of_holds (h : Ordered spans) (hs : s ∈ spans) (hr : r ∈ spans)
    (hstart : s.start < r.stop) (hstop : r.start < s.stop) : s = r := by
  obtain ⟨hpos, hpairwise⟩ := h
  obtain ⟨i, hi, rfl⟩ := List.getElem_of_mem hs
  obtain ⟨j, hj, rfl⟩ := List.getElem_of_mem hr
  rw [List.pairwise_iff_getElem] at hpairwise
  rcases Nat.lt_trichotomy i j with hlt | rfl | hlt
  · have := hpairwise i j hi hj hlt
    omega
  · rfl
  · have := hpairwise j i hj hi hlt
    omega

theorem exists_last (hsorted : spans.Pairwise fun a b => a.start ≤ b.start) (hs : s ∈ spans)
    (hle : s.start ≤ offset) :
    ∃ last ∈ spans, last.start ≤ offset ∧
      (∀ r ∈ spans, r.start ≤ offset → r.start ≤ last.start) ∧
      containing? spans offset = if offset < last.stop then some last else none := by
  have hmem : ∀ r, r ∈ spans.filter (fun s => decide (s.start ≤ offset)) ↔
      r ∈ spans ∧ r.start ≤ offset := by
    intro r
    rw [List.mem_filter, decide_eq_true_eq]
  cases hlast : (spans.filter fun s => decide (s.start ≤ offset)).getLast? with
  | none =>
      rw [List.getLast?_eq_none_iff] at hlast
      have := (hmem s).mpr ⟨hs, hle⟩
      simp [hlast] at this
  | some last =>
      obtain ⟨front, hfront⟩ := List.getLast?_eq_some_iff.mp hlast
      obtain ⟨hlastmem, hlastle⟩ := (hmem last).mp (by simp [hfront])
      refine ⟨last, hlastmem, hlastle, ?_, ?_⟩
      · intro r hr hrle
        have hpairwise := hsorted.filter fun s => decide (s.start ≤ offset)
        have hrmem := (hmem r).mpr ⟨hr, hrle⟩
        rw [hfront] at hpairwise hrmem
        rcases List.mem_append.mp hrmem with hrfront | hrlast
        · exact (List.pairwise_append.mp hpairwise).2.2 r hrfront last (List.mem_singleton_self _)
        · obtain rfl := List.mem_singleton.mp hrlast
          exact Nat.le_refl _
      · rw [containing?, hlast]

/-- Among spans one behind the other a lookup finds the span that holds the offset. -/
theorem containing?_eq_some (h : Ordered spans) (hs : s ∈ spans) (hstart : s.start ≤ offset)
    (hstop : offset < s.stop) : containing? spans offset = some s := by
  obtain ⟨last, hlast, hle, hmax, hcontaining⟩ := exists_last h.pairwise_start hs hstart
  have hlater := hmax s hs hstart
  have hpos := h.1 last hlast
  obtain rfl := h.eq_of_holds hs hlast (by omega) (by omega)
  rw [hcontaining, if_pos hstop]

end Span

/-! ## Lines and fences -/

theorem Line.pairwise_placed (offset : Nat) (contents : List Text) :
    (Line.placed offset contents).Pairwise fun a b => a.stop < b.offset := by
  induction contents generalizing offset with
  | nil => exact .nil
  | cons content rest ih =>
      refine List.pairwise_cons.mpr ⟨?_, ih _⟩
      intro line hline
      exact (Line.placed_spec hline).1

namespace Fence

theorem ne_nil_of_opening? {content : Text} {marker : Marker}
    (h : opening? content = some marker) : content ≠ [] := by
  rintro rfl
  simp [opening?, unindented?] at h

theorem ordered_ofLines {total : Nat} {lines : List Line}
    (hlines : lines.Pairwise fun a b => a.stop < b.offset)
    (htotal : ∀ line ∈ lines, line.stop ≤ total) : Span.Ordered (ofLines total lines) := by
  fun_induction ofLines total lines with
  | case1 => exact Span.ordered_nil
  | case2 lines start marker body hopening hclosing =>
      obtain ⟨line, hsuffix, rfl, hmarker⟩ := of_seekOpening hopening
      have hpos := List.length_pos_iff.mpr (ne_nil_of_opening? hmarker)
      have hstop : line.offset + line.content.length ≤ total :=
        htotal line (hsuffix.subset (List.mem_cons_self ..))
      refine Span.ordered_cons_iff.mpr ⟨?_, by simp, Span.ordered_nil⟩
      show line.offset < total
      omega
  | case3 lines start marker body hopening stop rest hclosing _ _ ih =>
      obtain ⟨line, hsuffix, rfl, -⟩ := of_seekOpening hopening
      obtain ⟨last, hsuffix', rfl⟩ := of_seekClosing hclosing
      obtain ⟨hbody, hpairwise⟩ := List.pairwise_cons.mp (hlines.sublist hsuffix.sublist)
      obtain ⟨hrest, hpairwise'⟩ := List.pairwise_cons.mp (hpairwise.sublist hsuffix'.sublist)
      have hsubset : rest ⊆ lines := fun l hl => hsuffix.subset
        (List.mem_cons_of_mem _ (hsuffix'.subset (List.mem_cons_of_mem _ hl)))
      refine Span.ordered_cons_iff.mpr
        ⟨?_, ?_, ih hpairwise' fun l hl => htotal l (hsubset hl)⟩
      · have h1 : line.offset + line.content.length < last.offset :=
          hbody last (hsuffix'.subset (List.mem_cons_self ..))
        show line.offset < last.offset + last.content.length
        omega
      · intro block hblock
        obtain ⟨⟨line', hline', -, hoffset, -⟩, -⟩ := of_mem_ofLines hblock
        have := hrest line' hline'
        show last.stop ≤ block.start
        omega

end Fence

/-- The fences of a text are not empty and lie one behind the other. -/
theorem ordered_fences (t : Text) : Span.Ordered (fences t) :=
  Fence.ordered_ofLines (Line.pairwise_placed 0 _) fun _ hline => (Text.lines_spec hline).2

end InverseTemplate
