/-
# Code regions

The code regions of a text are its fences and those of its code spans that do not begin in a fence.
Fences lie one behind the other and so do code spans, but a code span may run across a fence.  A
lookup asks the last region that starts at or before the offset, so what it says inside a code span
depends on whether a fence of the span lies in front of the offset.

Inside a fence it is right: no other region begins there (`containing?_codeRegions_of_mem_fences`).
Where it is wrong, a code span runs across a fence and the offset lies behind the fence
(`mem_codeSpans_of_not_containing`).
-/
import InverseTemplate.Markdown.CodeSpan
import InverseTemplate.Proofs.Markdown.Order

namespace InverseTemplate

namespace CodeSpan

/-! ## Runs of backticks -/

theorem of_mem_runsFrom {offset : Nat} {t : Text} {run : Ticks} (h : run ∈ runsFrom offset t) :
    offset ≤ run.offset ∧ 0 < run.width ∧
      ∀ i, run.offset ≤ i → i < run.stop → t[i - offset]? = some Fence.backtick := by
  fun_induction runsFrom offset t with
  | case1 => simp at h
  | case2 offset r more ih =>
      rcases List.mem_cons.mp h with rfl | hmem
      · refine ⟨Nat.le_refl _, Nat.succ_pos _, ?_⟩
        intro i h1 h2
        have h1 : offset ≤ i := h1
        have h2 : i < offset + (more + 1) := h2
        obtain ⟨k, rfl⟩ := Nat.exists_eq_add_of_le h1
        rw [Nat.add_sub_cancel_left]
        cases k with
        | zero => rfl
        | succ k =>
            have hk : k < more := by omega
            obtain ⟨behind, hbehind⟩ :=
              List.takeWhile_prefix (fun c => decide (c = Fence.backtick)) (l := r)
            have hmark := List.mem_takeWhile_imp (List.getElem_mem hk)
            rw [List.getElem?_cons_succ, ← hbehind, List.getElem?_append_left hk,
              List.getElem?_eq_getElem hk, of_decide_eq_true hmark]
      · obtain ⟨h1, h2, h3⟩ := ih hmem
        refine ⟨by omega, h2, ?_⟩
        intro i hi hlt
        have := h3 i hi hlt
        rw [List.getElem?_drop] at this
        rw [← this, show i - offset = (more + (i - (offset + more + 1))) + 1 by omega,
          List.getElem?_cons_succ]
  | case3 offset c r hc ih =>
      obtain ⟨h1, h2, h3⟩ := ih h
      refine ⟨by omega, h2, ?_⟩
      intro i hi hlt
      rw [← h3 i hi hlt, show i - offset = (i - (offset + 1)) + 1 by omega,
        List.getElem?_cons_succ]

theorem pairwise_runsFrom (offset : Nat) (t : Text) :
    (runsFrom offset t).Pairwise fun a b => a.stop ≤ b.offset := by
  fun_induction runsFrom offset t with
  | case1 => exact .nil
  | case2 offset r more ih =>
      refine List.pairwise_cons.mpr ⟨?_, ih⟩
      intro run hrun
      exact (of_mem_runsFrom hrun).1
  | case3 offset c r hc ih => exact ih

/-! ## Spans between two runs -/

theorem of_seek {width : Nat} {runs rest : List Ticks} {run : Ticks}
    (h : seek width runs = some (run, rest)) : run :: rest <:+ runs := by
  induction runs with
  | nil => simp [seek] at h
  | cons first more ih =>
      rw [seek] at h
      split at h
      · cases h
        exact List.suffix_refl _
      · exact (ih h).trans (List.suffix_cons _ _)

theorem of_openedBy {run : Ticks} {rest after : List Ticks} {width : Nat} {span : Span}
    (h : openedBy run rest width = some (span, after)) :
    ∃ w closer, 0 < w ∧ w ≤ width ∧ closer :: after <:+ rest ∧
      span = ⟨run.stop - w, closer.stop⟩ := by
  induction width with
  | zero => simp [openedBy] at h
  | succ width ih =>
      rw [openedBy] at h
      split at h
      · next closer after' hseek =>
          cases h
          exact ⟨width + 1, closer, Nat.succ_pos _, Nat.le_refl _, of_seek hseek, rfl⟩
      · obtain ⟨w, closer, hpos, hle, hrest⟩ := ih h
        exact ⟨w, closer, hpos, Nat.le_succ_of_le hle, hrest⟩

theorem ordered_ofRuns {runs : List Ticks} (hpairwise : runs.Pairwise fun a b => a.stop ≤ b.offset)
    (hwidth : ∀ run ∈ runs, 0 < run.width) :
    (∀ span ∈ ofRuns runs, ∃ run ∈ runs, run.offset ≤ span.start ∧ span.start < run.stop) ∧
      Span.Ordered (ofRuns runs) := by
  fun_induction ofRuns runs with
  | case1 => exact ⟨by simp, Span.ordered_nil⟩
  | case2 run rest span after hopened _ ih =>
      obtain ⟨w, closer, hpos, hle, hsuffix, rfl⟩ := of_openedBy hopened
      obtain ⟨hrun, hrest⟩ := List.pairwise_cons.mp hpairwise
      obtain ⟨hcloser, hafter⟩ := List.pairwise_cons.mp (hrest.sublist hsuffix.sublist)
      have hsubset : after ⊆ run :: rest := fun r hr =>
        List.mem_cons_of_mem _ (hsuffix.subset (List.mem_cons_of_mem _ hr))
      obtain ⟨hbegins, hordered⟩ := ih hafter fun r hr => hwidth r (hsubset hr)
      have hstop : run.stop = run.offset + run.width := rfl
      have hcloses : run.stop ≤ closer.offset :=
        hrun closer (hsuffix.subset (List.mem_cons_self ..))
      have hcloserstop : closer.stop = closer.offset + closer.width := rfl
      refine ⟨?_, Span.ordered_cons_iff.mpr ⟨?_, ?_, hordered⟩⟩
      · intro s hs
        rcases List.mem_cons.mp hs with rfl | hmem
        · refine ⟨run, List.mem_cons_self .., ?_, ?_⟩
          · show run.offset ≤ run.stop - w
            omega
          · show run.stop - w < run.stop
            omega
        · obtain ⟨r, hr, hin⟩ := hbegins s hmem
          exact ⟨r, hsubset hr, hin⟩
      · show run.stop - w < closer.stop
        have := hwidth closer (List.mem_cons_of_mem _ (hsuffix.subset (List.mem_cons_self ..)))
        omega
      · intro s hs
        obtain ⟨r, hr, hin, -⟩ := hbegins s hs
        exact Nat.le_trans (hcloser r hr) hin
  | case3 run rest hopened ih =>
      obtain ⟨hbegins, hordered⟩ := ih (List.pairwise_cons.mp hpairwise).2 fun r hr =>
        hwidth r (List.mem_cons_of_mem _ hr)
      refine ⟨?_, hordered⟩
      intro s hs
      obtain ⟨r, hr, hin⟩ := hbegins s hs
      exact ⟨r, List.mem_cons_of_mem _ hr, hin⟩

end CodeSpan

theorem ordered_codeSpans (t : Text) : Span.Ordered (codeSpans t) :=
  (CodeSpan.ordered_ofRuns (CodeSpan.pairwise_runsFrom 0 t) fun _ hrun =>
    (CodeSpan.of_mem_runsFrom hrun).2.1).2

theorem getElem?_start_of_mem_codeSpans {t : Text} {span : Span} (h : span ∈ codeSpans t) :
    t[span.start]? = some Fence.backtick := by
  have hruns := CodeSpan.ordered_ofRuns (CodeSpan.pairwise_runsFrom 0 t) fun _ hrun =>
    (CodeSpan.of_mem_runsFrom hrun).2.1
  obtain ⟨run, hrun, h1, h2⟩ := hruns.1 span h
  exact (CodeSpan.of_mem_runsFrom hrun).2.2 span.start h1 h2

/-! ## Regions -/

variable {t : Text} {block region : Span} {offset : Nat}

theorem mem_codeRegions :
    region ∈ codeRegions t ↔
      region ∈ fences t ∨
        region ∈ codeSpans t ∧ Span.containing? (fences t) region.start = none := by
  rw [codeRegions, List.mem_mergeSort, List.mem_append, List.mem_filter, Option.isNone_iff_eq_none]

theorem pairwise_start_codeRegions (t : Text) :
    (codeRegions t).Pairwise fun a b => a.start ≤ b.start := by
  have hsorted : (codeRegions t).Pairwise fun a b => Span.le a b = true := by
    refine List.pairwise_mergeSort ?_ ?_ _
    · intro a b c
      simp only [Span.le, Bool.or_eq_true, Bool.and_eq_true, decide_eq_true_eq]
      omega
    · intro a b
      simp only [Span.le, Bool.or_eq_true, Bool.and_eq_true, decide_eq_true_eq]
      omega
  refine hsorted.imp ?_
  intro a b hab
  simp only [Span.le, Bool.or_eq_true, Bool.and_eq_true, decide_eq_true_eq] at hab
  omega

theorem codeRegions_eq_pair {span : Span} (hfences : fences t = [block])
    (hspans : codeSpans t = [span])
    (hlt : span.start < block.start) : codeRegions t = [span, block] := by
  have hnone : Span.containing? [block] span.start = none := by
    simp [Span.containing?, Nat.not_le_of_lt hlt]
  have hle : Span.le block span = false := by
    simp [Span.le, Nat.not_lt_of_lt hlt, Nat.ne_of_gt hlt]
  rw [codeRegions, hfences, hspans]
  simp [hnone, List.mergeSort, hle, List.MergeSort.Internal.splitInTwo]

theorem exists_mark_of_mem_codeRegions (h : region ∈ codeRegions t) :
    ∃ c, t[region.start]? = some c ∧
      (Text.isHorizontal c = true ∨ c = Fence.backtick ∨ c = '~') := by
  rcases mem_codeRegions.mp h with hfence | ⟨hspan, -⟩
  · obtain ⟨-, indent, mark, rest, hopens, -, hhorizontal, hmark⟩ :=
      exists_mark_of_mem_fences hfence
    rw [← Nat.add_zero region.start, ← List.getElem?_drop, hopens]
    cases indent with
    | nil => exact ⟨mark, rfl, .inr hmark⟩
    | cons c r => exact ⟨c, rfl, .inl (hhorizontal c (List.mem_cons_self ..))⟩
  · exact ⟨_, getElem?_start_of_mem_codeSpans hspan, .inr (.inl rfl)⟩

theorem eq_of_start_mem_fence (hblock : block ∈ fences t) (hregion : region ∈ codeRegions t)
    (hstart : block.start ≤ region.start) (hstop : region.start < block.stop) : region = block := by
  have hordered := ordered_fences t
  rcases mem_codeRegions.mp hregion with hfence | ⟨-, hnone⟩
  · have := hordered.1 region hfence
    exact hordered.eq_of_holds hfence hblock hstop (by omega)
  · rw [Span.containing?_eq_some hordered hblock hstart hstop] at hnone
    simp at hnone

/-- Inside a fence a lookup among the regions finds the fence. -/
theorem containing?_codeRegions_of_mem_fences (hblock : block ∈ fences t)
    (hstart : block.start ≤ offset) (hstop : offset < block.stop) :
    Span.containing? (codeRegions t) offset = some block := by
  obtain ⟨last, hlast, hle, hmax, hcontaining⟩ :=
    Span.exists_last (pairwise_start_codeRegions t) (mem_codeRegions.mpr (.inl hblock)) hstart
  have hlater := hmax block (mem_codeRegions.mpr (.inl hblock)) hstart
  obtain rfl := eq_of_start_mem_fence hblock hlast hlater (by omega)
  rw [hcontaining, if_pos hstop]

/-- A region that holds an offset escapes the lookup only if it is a code span that runs across a
fence in front of the offset. -/
theorem mem_codeSpans_of_not_containing (hregion : region ∈ codeRegions t)
    (hstart : region.start ≤ offset) (hstop : offset < region.stop)
    (hnone : Span.containing? (codeRegions t) offset = none) :
    region ∈ codeSpans t ∧
      ∃ block ∈ fences t, region.start < block.start ∧ block.stop ≤ offset := by
  obtain ⟨last, hlast, hle, hmax, hcontaining⟩ :=
    Span.exists_last (pairwise_start_codeRegions t) hregion hstart
  have hlater := hmax region hregion hstart
  have hends : last.stop ≤ offset := by
    rw [hcontaining] at hnone
    refine Nat.le_of_not_lt fun hlt => ?_
    rw [if_pos hlt] at hnone
    simp at hnone
  rcases mem_codeRegions.mp hregion with hfence | ⟨hspan, hfree⟩
  · rw [containing?_codeRegions_of_mem_fences hfence hstart hstop] at hnone
    simp at hnone
  · refine ⟨hspan, ?_⟩
    rcases mem_codeRegions.mp hlast with hblock | ⟨hother, -⟩
    · have hpos := (ordered_fences t).1 last hblock
      refine ⟨last, hblock, Nat.lt_of_not_le fun hge => ?_, hends⟩
      rw [Span.containing?_eq_some (ordered_fences t) hblock hge (by omega)] at hfree
      simp at hfree
    · -- two code spans would overlap
      have hpos := (ordered_codeSpans t).1 last hother
      obtain rfl := (ordered_codeSpans t).eq_of_holds hspan hother (by omega) (by omega)
      omega

end InverseTemplate
