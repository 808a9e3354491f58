/-
# Texts without fences

A fence opens with three equal marks in a row.  A text in which neither mark occurs three times in
a row has no fenced code block, wherever its lines begin.
-/
import InverseTemplate.Markdown.Fence
import InverseTemplate.Proofs.Text.Split
import InverseTemplate.Proofs.Text.Strip

namespace InverseTemplate

/-- Neither backticks nor tildes occur three times in a row. -/
def FenceFree (t : Text) : Prop :=
  ¬ List.replicate 3 Fence.backtick <:+: t ∧ ¬ List.replicate 3 '~' <:+: t

instance (t : Text) : Decidable (FenceFree t) :=
  inferInstanceAs (Decidable (¬ List.replicate 3 Fence.backtick <:+: t ∧
    ¬ List.replicate 3 '~' <:+: t))

/-! ## Opening lines -/

namespace Fence

theorem infix_of_opening? {content : Text} {marker : Marker} (h : opening? content = some marker) :
    ∃ c, (c = backtick ∨ c = '~') ∧ List.replicate 3 c <:+: content := by
  unfold opening? at h
  split at h
  · next c r hr =>
      dsimp only at h
      split at h
      · next hopen =>
          obtain ⟨hmark, hwidth⟩ := hopen
          refine ⟨c, hmark, ?_⟩
          have htwo : List.replicate 2 c <+: r := by
            refine List.IsPrefix.trans ?_ (List.takeWhile_prefix (· = c))
            rw [Text.takeWhile_eq_replicate]
            exact ⟨List.replicate ((r.takeWhile (· = c)).length - 2) c, by
              rw [List.replicate_append_replicate]
              congr 1
              omega⟩
          have hthree : List.replicate 3 c <+: c :: r := List.cons_prefix_cons.mpr ⟨rfl, htwo⟩
          unfold unindented? at hr
          split at hr
          · rw [Option.some.injEq] at hr
            rw [← hr] at hthree
            exact hthree.isInfix.trans (List.dropWhile_suffix _).isInfix
          · simp at hr
      · simp at h
  · simp at h

theorem seekOpening_eq_none {lines : List Line} (h : ∀ line ∈ lines, opening? line.content = none) :
    seekOpening lines = none := by
  induction lines with
  | nil => rfl
  | cons line rest ih =>
      rw [seekOpening, h line (List.mem_cons_self ..)]
      exact ih fun l hl => h l (List.mem_cons_of_mem _ hl)

end Fence

theorem fences_eq_nil {t : Text} (h : FenceFree t) : fences t = [] := by
  have hnone : Fence.seekOpening t.lines = none := by
    refine Fence.seekOpening_eq_none fun line hline => ?_
    cases ho : Fence.opening? line.content with
    | none => rfl
    | some marker =>
        obtain ⟨c, hc, hinfix⟩ := Fence.infix_of_opening? ho
        have hline : line.content ∈ List.splitOn '\n' t :=
          Line.map_content_placed 0 (List.splitOn '\n' t) ▸ List.mem_map_of_mem hline
        have hthree := hinfix.trans (Text.infix_of_mem_splitOn hline)
        rcases hc with rfl | rfl
        · exact absurd hthree h.1
        · exact absurd hthree h.2
  rw [fences, Fence.ofLines]
  split
  · rfl
  · next hs => rw [hnone] at hs; simp at hs

end InverseTemplate
