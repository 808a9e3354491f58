/-
# Where fences begin and end

A fence begins with a line and ends with one, or with the text.  The offsets of lines are only
added up from their lengths; here they are tied to the text: what stands at the offset of a line is
the line (`Line.placed_spec`).  So a fence lies within its text, and at its start stand at most
three horizontal blanks and the mark that opens it (`exists_mark_of_mem_fences`).
-/
import InverseTemplate.Markdown.Fence
import InverseTemplate.Proofs.Text.Strip

namespace InverseTemplate

theorem Line.placed_spec {offset : Nat} {contents : List Text} {line : Line}
    (h : line ∈ Line.placed offset contents) :
    offset ≤ line.offset ∧
      line.content <+: (List.intercalate ['\n'] contents).drop (line.offset - offset) ∧
      line.stop ≤ offset + (List.intercalate ['\n'] contents).length := by
  induction contents generalizing offset with
  | nil => simp [Line.placed] at h
  | cons content rest ih =>
      rcases List.mem_cons.mp h with rfl | hmem
      · have hbegin : content <+: List.intercalate ['\n'] (content :: rest) := by
          cases rest with
          | nil => simp
          | cons next more =>
              rw [List.intercalate_cons_cons, List.append_assoc]
              exact List.prefix_append _ _
        refine ⟨Nat.le_refl _, ?_, Nat.add_le_add_left hbegin.length_le _⟩
        rwa [Nat.sub_self, List.drop_zero]
      · cases rest with
        | nil => simp [Line.placed] at hmem
        | cons next more =>
            obtain ⟨h1, h2, h3⟩ := ih hmem
            have hjoin : List.intercalate ['\n'] (content :: next :: more) =
                (content ++ ['\n']) ++ List.intercalate ['\n'] (next :: more) :=
              List.intercalate_cons_cons
            have hlength : (content ++ ['\n']).length = content.length + 1 := by simp
            refine ⟨by omega, ?_, ?_⟩
            · rw [hjoin, show line.offset - offset = (content ++ ['\n']).length +
                (line.offset - (offset + content.length + 1)) by omega, ← List.drop_drop,
                List.drop_left]
              exact h2
            · rw [hjoin, List.length_append]
              omega

theorem Text.lines_spec {t : Text} {line : Line} (h : line ∈ t.lines) :
    line.content <+: t.drop line.offset ∧ line.stop ≤ t.length := by
  obtain ⟨-, h2, h3⟩ := Line.placed_spec h
  rw [List.intercalate_splitOn] at h2 h3
  exact ⟨h2, by rwa [Nat.zero_add] at h3⟩

namespace Fence

theorem of_seekOpening {lines rest : List Line} {start : Nat} {marker : Marker}
    (h : seekOpening lines = some (start, marker, rest)) :
    ∃ line, line :: rest <:+ lines ∧ line.offset = start ∧ opening? line.content = some marker := by
  induction lines with
  | nil => simp [seekOpening] at h
  | cons line more ih =>
      rw [seekOpening] at h
      split at h
      · next marker' hopening =>
          cases h
          exact ⟨line, List.suffix_refl _, rfl, hopening⟩
      · obtain ⟨line', hsuffix, hopens⟩ := ih h
        exact ⟨line', hsuffix.trans (List.suffix_cons _ _), hopens⟩

theorem of_seekClosing {marker : Marker} {lines rest : List Line} {stop : Nat}
    (h : seekClosing marker lines = some (stop, rest)) :
    ∃ line, line :: rest <:+ lines ∧ line.stop = stop := by
  induction lines with
  | nil => simp [seekClosing] at h
  | cons line more ih =>
      rw [seekClosing] at h
      split at h
      · cases h
        exact ⟨line, List.suffix_refl _, rfl⟩
      · obtain ⟨line', hsuffix, hstop⟩ := ih h
        exact ⟨line', hsuffix.trans (List.suffix_cons _ _), hstop⟩

theorem of_mem_ofLines {total : Nat} {lines : List Line} {block : Span}
    (h : block ∈ ofLines total lines) :
    (∃ line ∈ lines, ∃ marker, line.offset = block.start ∧ opening? line.content = some marker) ∧
      (block.stop = total ∨ ∃ line ∈ lines, line.stop = block.stop) := by
  fun_induction ofLines total lines with
  | case1 => simp at h
  | case2 lines start marker body hopening hclosing =>
      obtain ⟨line, hsuffix, hoffset, hmarker⟩ := of_seekOpening hopening
      have hline : line ∈ lines := hsuffix.subset (List.mem_cons_self ..)
      obtain rfl := List.mem_singleton.mp h
      exact ⟨⟨line, hline, marker, hoffset, hmarker⟩, .inl rfl⟩
  | case3 lines start marker body hopening stop rest hclosing _ _ ih =>
      obtain ⟨line, hsuffix, hoffset, hmarker⟩ := of_seekOpening hopening
      obtain ⟨last, hsuffix', hstop⟩ := of_seekClosing hclosing
      have hline : line ∈ lines := hsuffix.subset (List.mem_cons_self ..)
      have hbody : last :: rest ⊆ lines := fun l hl =>
        hsuffix.subset (List.mem_cons_of_mem _ (hsuffix'.subset hl))
      rcases List.mem_cons.mp h with rfl | hmem
      · exact ⟨⟨line, hline, marker, hoffset, hmarker⟩,
          .inr ⟨last, hbody (List.mem_cons_self ..), hstop⟩⟩
      · have hrest : ∀ l ∈ rest, l ∈ lines := fun l hl => hbody (List.mem_cons_of_mem _ hl)
        obtain ⟨⟨line', hline', hopens⟩, hstop'⟩ := ih hmem
        refine ⟨⟨line', hrest _ hline', hopens⟩, ?_⟩
        exact hstop'.imp_right fun ⟨l, hl, heq⟩ => ⟨l, hrest l hl, heq⟩

theorem exists_mark_of_opening? {content : Text} {marker : Marker}
    (h : opening? content = some marker) :
    ∃ indent mark rest, content = indent ++ mark :: rest ∧ indent.length ≤ 3 ∧
      (∀ c ∈ indent, Text.isHorizontal c = true) ∧ (mark = backtick ∨ mark = '~') := by
  unfold opening? at h
  split at h
  · next c r hr =>
      unfold unindented? at hr
      split at hr
      · next hle =>
          dsimp only at h
          split at h
          · next hmark =>
              refine ⟨content.takeWhile Text.isHorizontal, c, r, ?_, hle,
                fun d hd => List.mem_takeWhile_imp hd, hmark.1⟩
              rw [← Option.some.inj hr, List.takeWhile_append_dropWhile]
          · simp at h
      · simp at hr
  · simp at h

end Fence

theorem exists_mark_of_mem_fences {t : Text} {block : Span} (h : block ∈ fences t) :
    block.stop ≤ t.length ∧
      ∃ indent mark rest, t.drop block.start = indent ++ mark :: rest ∧ indent.length ≤ 3 ∧
        (∀ c ∈ indent, Text.isHorizontal c = true) ∧ (mark = Fence.backtick ∨ mark = '~') := by
  obtain ⟨⟨line, hline, marker, hoffset, hopening⟩, hstop⟩ := Fence.of_mem_ofLines h
  obtain ⟨⟨behind, hbehind⟩, -⟩ := Text.lines_spec hline
  obtain ⟨indent, mark, rest, hcontent, hshort⟩ := Fence.exists_mark_of_opening? hopening
  refine ⟨?_, indent, mark, rest ++ behind, ?_, hshort⟩
  · rcases hstop with heq | ⟨last, hlast, heq⟩
    · exact Nat.le_of_eq heq
    · rw [← heq]
      exact (Text.lines_spec hlast).2
  · rw [← hoffset, ← hbehind, hcontent]
    simp

end InverseTemplate
