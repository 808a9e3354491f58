/-
# Confidence as a measure of completeness

Added and divided exactly, the weighted confidence measures how complete an extraction is, as long
as no weight is negative (`weighted_completeness`): it is between zero and one whatever is called
unmatched, it does not rise when more is unmatched, and if there is any weight at all, it is one
and zero exactly if no weight is missing and if all of it is.  Where all slots weigh the same it
is the share of the slots.

All of this is about `share`, read for a whole and a missing weight, and about `total`, which is a
sum: it does not see the order of the slots, and a sum of weights is zero only if every one of
them is.
-/
import Mathlib.Algebra.Order.BigOperators.Group.List
import Mathlib.Algebra.Order.Field.Rat
import Mathlib.Algebra.Order.Field.Basic
import Mathlib.Tactic.Linarith
import InverseTemplate.Confidence

namespace InverseTemplate

/-- Every weight has the property, the one of the kinds that are not listed included. -/
def Weights.Forall {α : Type} (P : α → Prop) (weights : Weights α) : Prop :=
  (∀ entry ∈ weights.byKind, P entry.2) ∧ P weights.other

theorem Weights.Forall.ofSlot {α : Type} {P : α → Prop} {weights : Weights α}
    (h : weights.Forall P) (slot : Slot) : P (weights.ofSlot slot) := by
  unfold Weights.ofSlot
  split
  · next kind weight hfind => exact h.1 _ (List.mem_of_find?_eq_some hfind)
  · exact h.2

namespace Confidence

/-! ## The weight of a list of slots -/

section Total

variable {weight : Slot → ℚ}

theorem total_eq_sum (weight : Slot → ℚ) (slots : List Slot) :
    total weight slots = (slots.map weight).sum := by
  rw [total, List.sum_eq_foldl, List.foldl_map]

theorem total_nonneg (hweight : ∀ slot, 0 ≤ weight slot) (slots : List Slot) :
    0 ≤ total weight slots := by
  rw [total_eq_sum]
  exact List.sum_nonneg (List.forall_mem_map.mpr fun slot _ => hweight slot)

theorem total_of_perm_append {slots a b : List Slot} (h : slots.Perm (a ++ b)) :
    total weight slots = total weight a + total weight b := by
  rw [total_eq_sum, total_eq_sum, total_eq_sum, (h.map weight).sum_eq, List.map_append,
    List.sum_append]

theorem total_le_of_subperm (hweight : ∀ slot, 0 ≤ weight slot) {a b : List Slot}
    (h : a.Subperm b) : total weight a ≤ total weight b := by
  obtain ⟨c, hperm, hsub⟩ := h
  obtain ⟨rest, hrest⟩ := hsub.exists_perm_append
  have hb : total weight b = total weight a + total weight rest :=
    total_of_perm_append (hrest.trans (hperm.append_right rest))
  linarith [total_nonneg hweight rest]

theorem total_eq_zero_iff (hweight : ∀ slot, 0 ≤ weight slot) {slots : List Slot} :
    total weight slots = 0 ↔ ∀ slot ∈ slots, weight slot = 0 := by
  induction slots with
  | nil => simp [total]
  | cons slot rest ih =>
      have hcons : total weight (slot :: rest) = weight slot + total weight rest := by
        rw [total_eq_sum, total_eq_sum, List.map_cons, List.sum_cons]
      rw [hcons, add_eq_zero_iff_of_nonneg (hweight slot) (total_nonneg hweight rest), ih,
        List.forall_mem_cons]

theorem total_const (w : ℚ) (slots : List Slot) :
    total (fun _ => w) slots = slots.length * w := by
  rw [total_eq_sum, List.map_const', List.sum_replicate, nsmul_eq_mul]

end Total

/-! ## Shares -/

theorem clamp_eq (x : ℚ) : clamp x = max 0 (min x 1) := by
  unfold clamp
  dsimp only
  rcases lt_or_ge x 1 with hx | hx
  · rw [if_pos hx, min_eq_left hx.le]
    rcases lt_or_ge 0 x with hpos | hpos
    · rw [if_pos hpos, max_eq_right hpos.le]
    · rw [if_neg hpos.not_gt, max_eq_left hpos]
  · rw [if_neg hx.not_gt, min_eq_right hx, if_pos one_pos, max_eq_right zero_le_one]

theorem clamp_eq_self {x : ℚ} (h0 : 0 ≤ x) (h1 : x ≤ 1) : clamp x = x := by
  rw [clamp_eq, min_eq_left h1, max_eq_right h0]

theorem share_of_nonpos {whole : ℚ} (h : whole ≤ 0) (missed : ℚ) : share whole missed = 1 :=
  if_pos h

theorem share_of_pos {whole : ℚ} (h : 0 < whole) (missed : ℚ) :
    share whole missed = clamp ((whole - missed) / whole) := if_neg h.not_ge

theorem share_bounds (whole missed : ℚ) : 0 ≤ share whole missed ∧ share whole missed ≤ 1 := by
  rcases le_or_gt whole 0 with hwhole | hwhole
  · rw [share_of_nonpos hwhole]
    exact ⟨zero_le_one, le_rfl⟩
  · rw [share_of_pos hwhole, clamp_eq]
    exact ⟨le_max_left _ _, max_le zero_le_one (min_le_right _ _)⟩

theorem share_antitone (whole : ℚ) : Antitone (share whole) := by
  intro a b hab
  rcases le_or_gt whole 0 with hwhole | hwhole
  · rw [share_of_nonpos hwhole, share_of_nonpos hwhole]
  · rw [share_of_pos hwhole, share_of_pos hwhole, clamp_eq, clamp_eq]
    have hdiv : (whole - b) / whole ≤ (whole - a) / whole :=
      div_le_div_of_nonneg_right (by linarith) hwhole.le
    exact max_le_max le_rfl (min_le_min hdiv le_rfl)

theorem share_eq_div {whole missed : ℚ} (hwhole : 0 < whole) (h0 : 0 ≤ missed)
    (hle : missed ≤ whole) : share whole missed = (whole - missed) / whole := by
  rw [share_of_pos hwhole, clamp_eq_self]
  · exact div_nonneg (by linarith) hwhole.le
  · rw [div_le_one hwhole]
    linarith

theorem share_mul {w : ℚ} (hw : 0 < w) (whole missed : ℚ) :
    share (whole * w) (missed * w) = share whole missed := by
  rcases le_or_gt whole 0 with hwhole | hwhole
  · rw [share_of_nonpos hwhole, share_of_nonpos (mul_nonpos_of_nonpos_of_nonneg hwhole hw.le)]
  · rw [share_of_pos hwhole, share_of_pos (mul_pos hwhole hw), ← sub_mul,
      mul_div_mul_right _ _ hw.ne']

/-! ## The weighted confidence -/

/-- With weights that are not negative: the confidence is between zero and one for any unmatched
slots; it is lower or the same with more of them; if the slots, in whatever order, are the
unmatched and the matched ones and weigh anything, it is one if no unmatched slot weighs anything
and zero if no matched one does, and only then; and if all weights are the same and not zero, it
is the share of the slots. -/
theorem weighted_completeness (weights : Weights ℚ) (hweights : weights.Forall (0 ≤ ·))
    (slots : List Slot) :
    (∀ unmatched, 0 ≤ weighted weights slots unmatched ∧ weighted weights slots unmatched ≤ 1) ∧
      (∀ a b : List Slot, a.Subperm b → weighted weights slots b ≤ weighted weights slots a) ∧
      (∀ unmatched matched, slots.Perm (unmatched ++ matched) → 0 < total weights.ofSlot slots →
        (weighted weights slots unmatched = 1 ↔ ∀ slot ∈ unmatched, weights.ofSlot slot = 0) ∧
        (weighted weights slots unmatched = 0 ↔ ∀ slot ∈ matched, weights.ofSlot slot = 0)) ∧
      (∀ w, 0 < w → weights.Forall (· = w) →
        ∀ unmatched, weighted weights slots unmatched = ratio slots unmatched) := by
  have hnonneg : ∀ slot, 0 ≤ weights.ofSlot slot := hweights.ofSlot
  refine ⟨fun unmatched => share_bounds _ _, ?_, ?_, ?_⟩
  · intro a b hab
    exact share_antitone _ (total_le_of_subperm hnonneg hab)
  · intro unmatched matched hperm hpos
    have hsum : total weights.ofSlot slots =
        total weights.ofSlot unmatched + total weights.ofSlot matched := total_of_perm_append hperm
    have hshare : weighted weights slots unmatched =
        (total weights.ofSlot slots - total weights.ofSlot unmatched) /
          total weights.ofSlot slots := by
      refine share_eq_div hpos (total_nonneg hnonneg unmatched) ?_
      linarith [total_nonneg hnonneg matched]
    rw [← total_eq_zero_iff hnonneg, ← total_eq_zero_iff hnonneg, hshare,
      div_eq_one_iff_eq hpos.ne',
      div_eq_zero_iff]
    constructor
    · constructor <;> intro h <;> linarith
    · constructor
      · rintro (h | h) <;> linarith
      · intro h
        exact .inl (by linarith)
  · intro w hw hsame unmatched
    have hconst : weights.ofSlot = fun _ => w := funext hsame.ofSlot
    rw [weighted, ratio, hconst, total_const, total_const, total_const, total_const, mul_one,
      mul_one,
      share_mul hw]

/-- A component weighs three times as much as an expression, and a loop weighs nothing: nothing is
missing with the loop, three fifths are with the component, and calling it unmatched twice takes off
more.  If all kinds weigh two, a quarter is missing with the component. -/
theorem weighted_completeness_component :
    let weights : Weights ℚ := ⟨[(.component, 3), (.loop, 0)], 1⟩
    let even : Weights ℚ := ⟨[(.component, 2)], 2⟩
    let component : Slot := ⟨.component (text "Card") [] none, text "<Card />", 0, 8⟩
    let loop : Slot := ⟨.loop (text "xs.map(f)"), text "{xs.map(f)}", 8, 19⟩
    let first : Slot := ⟨.expression (text "a"), text "{a}", 19, 22⟩
    let second : Slot := ⟨.expression (text "b"), text "{b}", 22, 25⟩
    let slots := [component, loop, first, second]
    weights.Forall (0 ≤ ·) ∧ even.Forall (0 ≤ ·) ∧ even.Forall (· = 2) ∧
      slots.Perm ([loop] ++ [component, first, second]) ∧ 0 < total weights.ofSlot slots ∧
      weighted weights slots [loop] = 1 ∧ weighted weights slots [component] = 2 / 5 ∧
      weighted weights slots [component, component] ≤ 2 / 5 ∧
      weighted even slots [component] = ratio slots [component] ∧
      ratio slots [component] = (3 / 4 : ℚ) := by
  intro weights even component loop first second slots
  have hweights : weights.Forall (0 ≤ ·) := by
    refine ⟨?_, ?_⟩ <;> decide +kernel
  have heven : even.Forall (· = 2) := by
    refine ⟨?_, ?_⟩ <;> decide +kernel
  have hnonneg : even.Forall (0 ≤ ·) := by
    refine ⟨?_, ?_⟩ <;> decide +kernel
  have hperm : slots.Perm ([loop] ++ [component, first, second]) := List.Perm.swap _ _ _
  have hpos : 0 < total weights.ofSlot slots := by decide +kernel
  have hcomponent : weighted weights slots [component] = 2 / 5 := by decide +kernel
  have hmore : [component].Subperm [component, component] :=
    (List.singleton_sublist.mpr (List.mem_cons_self ..)).subperm
  obtain ⟨-, hantitone, hends, -⟩ := weighted_completeness weights hweights slots
  obtain ⟨-, -, -, hsame⟩ := weighted_completeness even hnonneg slots
  refine ⟨hweights, hnonneg, heven, hperm, hpos, ?_, hcomponent, ?_, ?_, ?_⟩
  · exact (hends _ _ hperm hpos).1.mpr (List.forall_mem_singleton.mpr (by decide +kernel))
  · exact hcomponent ▸ hantitone _ _ hmore
  · exact hsame 2 two_pos heven [component]
  · decide +kernel

end Confidence

end InverseTemplate
