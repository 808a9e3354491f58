/-
# Fences and captures

A search does not take a hit inside a fence that begins ahead of its origin, so that code does not
end a value.  That protects a fence as long as every search that gets to it starts in front of it.
The search for a gap starts where the content goes on, and the blanks in front of the content may be
those that a fence is indented by; a gap of spaces may even be these blanks.  Either way the scan
finds itself inside the fence, and what it finds from there on counts.

So a fence can be cut only if it is indented, and only by a template that has a gap between two
slots (`Captures.find_not_cut`).  Why a text anchor never does it: what it takes has no mark of a
fence in it, and it does not end within the blanks in front of one.
-/
import InverseTemplate.Proofs.Capture.Step
import InverseTemplate.Proofs.Markdown.Opening

namespace InverseTemplate

/-- The offset lies strictly inside the span. -/
def Span.IsCutAt (s : Span) (offset : Nat) : Prop := s.start < offset ∧ offset < s.stop

/-- The text has none of the marks that fences are made of. -/
def Text.MarkFree (t : Text) : Prop := Fence.backtick ∉ t ∧ '~' ∉ t

instance (t : Text) : Decidable t.MarkFree :=
  inferInstanceAs (Decidable (Fence.backtick ∉ t ∧ '~' ∉ t))

theorem not_isCutAt_start {blocks : List Span} {block hit : Span} {origin : Nat}
    (hblock : block ∈ blocks) (horigin : ¬ block.IsCutAt origin) (hle : origin ≤ hit.start)
    (hskip : skipTarget? blocks hit.start origin = none) : ¬ block.IsCutAt hit.start := by
  intro hcut
  refine skipTarget?_eq_none_iff.mp hskip ⟨block, hblock, ?_, hcut⟩
  unfold Span.IsCutAt at horigin hcut
  omega

theorem contentStart_le {t : Text} {offset k : Nat} {c : Char} (hle : offset ≤ k)
    (hk : t[k]? = some c) (hc : Text.isBlank c = false) : contentStart t offset ≤ k := by
  refine Text.add_le_of_forall_take (fun d hd => ?_) hk hc hle
  rw [take_length_takeWhile] at hd
  exact List.mem_takeWhile_imp hd

/-- A fence of a text: it lies within the text and begins with its indentation and a mark. -/
structure FenceIn (t : Text) (block : Span) (indent : Text) (mark : Char) : Prop where
  stop_le_length : block.stop ≤ t.length
  opens : ∃ rest, t.drop block.start = indent ++ mark :: rest
  horizontal : ∀ c ∈ indent, Text.isHorizontal c = true
  isMark : mark = Fence.backtick ∨ mark = '~'

theorem exists_fenceIn {t : Text} {block : Span} (h : block ∈ fences t) :
    ∃ indent mark, FenceIn t block indent mark := by
  obtain ⟨hstop, indent, mark, rest, hopens, -, hhorizontal, hmark⟩ := exists_mark_of_mem_fences h
  exact ⟨indent, mark, hstop, ⟨rest, hopens⟩, hhorizontal, hmark⟩

namespace FenceIn

variable {t indent : Text} {block : Span} {mark : Char}

theorem getElem?_mark (h : FenceIn t block indent mark) :
    t[block.start + indent.length]? = some mark := by
  obtain ⟨rest, hrest⟩ := h.opens
  rw [← List.getElem?_drop, hrest, List.getElem?_append_right (Nat.le_refl _)]
  simp

theorem exists_horizontal (h : FenceIn t block indent mark) {i : Nat} (h1 : block.start ≤ i)
    (h2 : i < block.start + indent.length) :
    ∃ c, t[i]? = some c ∧ Text.isHorizontal c = true := by
  obtain ⟨rest, hrest⟩ := h.opens
  obtain ⟨k, rfl⟩ := Nat.exists_eq_add_of_le h1
  have hlt : k < indent.length := by omega
  refine ⟨indent[k], ?_, h.horizontal _ (List.getElem_mem hlt)⟩
  rw [← List.getElem?_drop, hrest, List.getElem?_append_left hlt, List.getElem?_eq_getElem hlt]

theorem mark_properties (h : FenceIn t block indent mark) :
    Text.isBlank mark = false ∧ mark ≠ '\n' ∧
      ∀ literal : Text, literal.MarkFree → mark ∉ literal := by
  rcases h.isMark with rfl | rfl
  · exact ⟨by decide, by decide, fun _ hfree => hfree.1⟩
  · exact ⟨by decide, by decide, fun _ hfree => hfree.2⟩

variable {literal : Text} {hit : Span}

theorem stop_le_mark (h : FenceIn t block indent mark) (hfree : literal.MarkFree) {m : Matcher}
    (hm : (Anchor.ofLiteral literal).matcher? = some m) (hhit : m.Hits t hit)
    (hstart : ¬ block.IsCutAt hit.start) (hcut : block.IsCutAt hit.stop) :
    block.start < hit.stop ∧ hit.stop ≤ block.start + indent.length := by
  refine ⟨hcut.1, Nat.le_of_not_lt fun hlt => ?_⟩
  obtain ⟨hblank, -, hmark⟩ := h.mark_properties
  have hle := hhit.start_le_stop
  unfold Span.IsCutAt at hstart hcut
  rcases Anchor.blank_or_mem_of_hits hm hhit (by omega) hlt h.getElem?_mark with hc | hc
  · rw [hblank] at hc
    simp at hc
  · exact hmark literal hfree hc

/-- A hit of a text does not end inside a fence that it does not begin in. -/
theorem not_isCutAt_stop_of_text (h : FenceIn t block indent mark) (hfree : literal.MarkFree)
    {a : TextAnchor} (ha : Anchor.ofLiteral literal = .text a) (hhit : a.matcher.Hits t hit)
    (hstart : ¬ block.IsCutAt hit.start) : ¬ block.IsCutAt hit.stop := by
  intro hcut
  obtain ⟨h1, h2⟩ := h.stop_le_mark hfree (by rw [ha]; rfl) hhit hstart hcut
  rcases Anchor.ends_of_hits_text ha hhit with ⟨c, hc, hblank⟩ | hline
  · -- the character in front of its end would be part of the indentation
    obtain ⟨d, hd, hhorizontal⟩ :=
      h.exists_horizontal (i := hit.stop - 1) (by omega) (by omega)
    rw [hc, Option.some.injEq] at hd
    subst hd
    rw [Text.isBlank_of_isHorizontal hhorizontal] at hblank
    simp at hblank
  · -- and the one behind it would be the mark or part of the indentation
    by_cases hend : hit.stop = block.start + indent.length
    · exact h.mark_properties.2.1 (hline mark (hend ▸ h.getElem?_mark))
    · obtain ⟨d, hd, hhorizontal⟩ := h.exists_horizontal (i := hit.stop) (by omega) (by omega)
      rw [hline d hd] at hhorizontal
      exact absurd hhorizontal (by decide)

theorem not_isCutAt_stop_of_flush (h : FenceIn t block indent mark) (hflush : indent = [])
    (hfree : literal.MarkFree) {m : Matcher} (hm : (Anchor.ofLiteral literal).matcher? = some m)
    (hhit : m.Hits t hit) (hstart : ¬ block.IsCutAt hit.start) : ¬ block.IsCutAt hit.stop := by
  intro hcut
  obtain ⟨h1, h2⟩ := h.stop_le_mark hfree hm hhit hstart hcut
  rw [hflush, List.length_nil] at h2
  omega

theorem not_isCutAt_contentStart (h : FenceIn t block indent mark) (hflush : indent = [])
    {offset : Nat} (hoffset : ¬ block.IsCutAt offset) :
    ¬ block.IsCutAt (contentStart t offset) := by
  intro hcut
  have hle : offset ≤ contentStart t offset := Nat.le_add_right _ _
  unfold Span.IsCutAt at hoffset hcut
  have := @contentStart_le t offset _ _ (by omega) h.getElem?_mark h.mark_properties.1
  rw [hflush, List.length_nil] at this
  omega

end FenceIn

/-! ## The scan -/

/-- The literal is not a mere gap. -/
def Text.NoGap (literal : Text) : Prop := Text.AllBlank literal → literal = []

/-- A scan that does not stand inside a fence does not end a slot there and does not go on there, if
the fence is not indented or no gap is looked for. -/
theorem Scan.Moves.not_isCutAt {settings : Settings} {blocks : List Span}
    {t literal indent : Text} {isLast : Bool}
    {scan next : Scan} {span : Option Span} {block : Span} {mark : Char}
    (h : Moves settings blocks t isLast scan (.ofLiteral literal) span next)
    (hblock : block ∈ blocks)
    (hin : FenceIn t block indent mark) (hfree : literal.MarkFree)
    (hsafe : indent = [] ∨ (isLast = false → literal.NoGap))
    (hcursor : ¬ block.IsCutAt scan.cursor) :
    ¬ block.IsCutAt next.cursor ∧
      ∀ s ∈ span, ¬ block.IsCutAt s.start ∧ ¬ block.IsCutAt s.stop := by
  generalize ha : Anchor.ofLiteral literal = after at h
  have hend : ¬ block.IsCutAt t.length := fun hcut => Nat.not_le_of_lt hcut.2 hin.stop_le_length
  have htext : ∀ {a : TextAnchor} {hit : Span}, after = .text a →
      (searchOutside a.matcher blocks t scan.cursor).hit = some hit →
      ¬ block.IsCutAt hit.start ∧ ¬ block.IsCutAt hit.stop := by
    intro a hit hafter hfound
    obtain ⟨hle, hhit, hskip⟩ := searchOutside_sound hfound
    have hstart := not_isCutAt_start hblock hcursor hle hskip
    exact ⟨hstart, hin.not_isCutAt_stop_of_text hfree (ha.trans hafter) hhit hstart⟩
  have hflush : ∀ {g : Gap}, after = .gap g → isLast = false → indent = [] := by
    intro g hafter hlast
    refine hsafe.resolve_right fun hnot => ?_
    obtain ⟨hne, hblank, -⟩ := Anchor.ofLiteral_eq_gap_iff.mp (ha.trans hafter)
    exact hne (hnot hlast hblank)
  cases h with
  | last => exact ⟨hend, by simpa using ⟨hcursor, hend⟩⟩
  | adjacent => exact ⟨hcursor, by simpa using hcursor⟩
  | gap _ hlast hfound =>
      have horigin := hin.not_isCutAt_contentStart (hflush rfl hlast) hcursor
      obtain ⟨hle, hhit, hskip⟩ := searchOutside_sound hfound
      have hstart := not_isCutAt_start hblock horigin hle hskip
      have hstop :=
        hin.not_isCutAt_stop_of_flush (hflush rfl hlast) hfree (by rw [ha]; rfl) hhit hstart
      exact ⟨hstop, by simpa using ⟨hcursor, hstart⟩⟩
  | gapMissing _ hlast _ hstop =>
      have horigin := hin.not_isCutAt_contentStart (hflush rfl hlast) hcursor
      have hsection : ¬ block.IsCutAt
          (sectionEnd settings blocks t (contentStart t scan.cursor)) := by
        unfold sectionEnd
        split
        · next hit hfound =>
            obtain ⟨hle, -, hskip⟩ := searchOutside_sound hfound
            exact not_isCutAt_start hblock horigin hle hskip
        · exact hend
      rw [hstop]
      exact ⟨hsection, by simpa using ⟨hcursor, hsection⟩⟩
  | text _ hfound =>
      obtain ⟨hstart, hstop⟩ := htext rfl hfound
      exact ⟨hstop, by simpa using ⟨hcursor, hstart⟩⟩
  | textMissing => exact ⟨hcursor, by simp⟩
  | resynced _ hfound => exact ⟨(htext rfl hfound).2, by simp⟩
  | lost => exact ⟨hcursor, by simp⟩

theorem Scan.not_isCutAt_opening {blocks : List Span} {t literal indent : Text} {block : Span}
    {mark : Char} (hblock : block ∈ blocks) (hin : FenceIn t block indent mark)
    (hfree : literal.MarkFree) :
    ¬ block.IsCutAt (opening blocks t (.ofLiteral literal)).1.cursor := by
  have hzero : ¬ block.IsCutAt 0 := fun hcut => Nat.not_lt_zero _ hcut.1
  cases hl : Anchor.ofLiteral literal with
  | empty => exact hzero
  | gap g => exact hzero
  | text a =>
      simp only [opening]
      split
      · next hit hfound =>
          obtain ⟨hle, hhit, hskip⟩ := searchOutside_sound hfound
          exact hin.not_isCutAt_stop_of_text hfree hl hhit
            (not_isCutAt_start hblock hzero hle hskip)
      · exact hzero

namespace Captures

variable {settings : Settings}

theorem ofParts_not_cut {blocks : List Span} {t indent : Text} {block : Span} {mark : Char}
    {index : Nat} {scan : Scan} {parts : List (Slot × Text)} (hblock : block ∈ blocks)
    (hin : FenceIn t block indent mark) (hfree : ∀ part ∈ parts, part.2.MarkFree)
    (hsafe : indent = [] ∨ ∀ part ∈ parts.dropLast, part.2.NoGap)
    (hcursor : ¬ block.IsCutAt scan.cursor) :
    ∀ c ∈ (ofParts settings blocks t index scan parts).captures, ∀ p ∈ c.passage,
      ¬ block.IsCutAt p.span.start ∧ ¬ block.IsCutAt p.span.stop := by
  induction parts generalizing index scan with
  | nil => simp [ofParts]
  | cons part rest ih =>
      obtain ⟨slot, literal⟩ := part
      rw [ofParts]
      let step := scan.step settings blocks t slot.label (.ofLiteral literal) rest.isEmpty
      have hmoves : Scan.Moves settings blocks t rest.isEmpty scan (.ofLiteral literal) step.span
          step.next :=
        Scan.moves_step ..
      have hhere : indent = [] ∨ (rest.isEmpty = false → literal.NoGap) := by
        refine hsafe.imp_right fun hall hmore => ?_
        cases rest with
        | nil => simp at hmore
        | cons _ _ => exact hall (slot, literal) (List.mem_cons_self ..)
      have hrest : indent = [] ∨ ∀ part ∈ rest.dropLast, part.2.NoGap := by
        refine hsafe.imp_right fun hall part hpart => ?_
        cases rest with
        | nil => simp at hpart
        | cons _ _ => exact hall part (List.mem_cons_of_mem _ hpart)
      obtain ⟨hnext, hspan⟩ := hmoves.not_isCutAt hblock hin
        (hfree (slot, literal) (List.mem_cons_self ..)) hhere hcursor
      intro c hc p hp
      rcases List.mem_cons.mp hc with rfl | hc
      · obtain ⟨s, hs, rfl⟩ := Option.map_eq_some_iff.mp hp
        exact hspan s hs
      · exact ih (fun part hpart => hfree part (List.mem_cons_of_mem _ hpart)) hrest hnext c hc p hp

/-- If the literals of a template have no mark of a fence, no capture begins or ends inside a fence
that is not indented, and inside any fence at all if there is no mere gap between two slots. -/
theorem find_not_cut {template : Template} {t : Text}
    (hfree : ∀ literal ∈ template.literals, literal.MarkFree) {block : Span}
    (hblock : block ∈ fences t)
    (hsafe : (∀ c, t[block.start]? = some c → Text.isHorizontal c = false) ∨
      ∀ part ∈ template.parts.dropLast, part.2.NoGap) :
    ∀ c ∈ (find settings template t).captures, ∀ p ∈ c.passage,
      ¬ block.IsCutAt p.span.start ∧ ¬ block.IsCutAt p.span.stop := by
  obtain ⟨indent, mark, hin⟩ := exists_fenceIn hblock
  have hparts : ∀ part ∈ template.parts, part.2.MarkFree := fun part hpart =>
    hfree part.2 (List.mem_cons_of_mem _ (List.mem_map_of_mem hpart))
  refine ofParts_not_cut hblock hin hparts (hsafe.imp_left fun hflush => ?_)
    (Scan.not_isCutAt_opening hblock hin (hfree _ (List.mem_cons_self ..)))
  cases hindent : indent with
  | nil => rfl
  | cons c r =>
      obtain ⟨d, hd, hhorizontal⟩ := hin.exists_horizontal (Nat.le_refl _) (by simp [hindent])
      rw [hflush d hd] at hhorizontal
      simp at hhorizontal

/-- A paragraph break inside a fence behind a heading does not end the section. -/
theorem find_not_cut_flush :
    let template := Template.ofText (text "# \x7ba\x7d\n\n\x7bb\x7d")
    let t := text "# T\n~~~\nx\n\ny\n~~~\n\nz"
    let captures := (find {} template t).captures
    captures.map (fun c => c.passage.map Passage.span) = [some ⟨1, 16⟩, some ⟨18, 19⟩] ∧
      ⟨4, 16⟩ ∈ fences t ∧
      ∀ c ∈ captures, ∀ p ∈ c.passage,
        ¬ Span.IsCutAt ⟨4, 16⟩ p.span.start ∧ ¬ Span.IsCutAt ⟨4, 16⟩ p.span.stop := by
  intro template t captures
  have hfree : ∀ literal ∈ template.literals, literal.MarkFree := by decide +kernel
  have hblock : ⟨4, 16⟩ ∈ fences t := by decide +kernel
  have hmark : t[4]? = some '~' := by decide +kernel
  refine ⟨by decide +kernel, hblock, find_not_cut hfree hblock (.inl fun c hc => ?_)⟩
  have hc : t[4]? = some c := hc
  rw [hmark] at hc
  cases hc
  decide

/-- In front of an indented fence the search for a paragraph break begins behind the indentation,
and ends the first slot inside the fence. -/
theorem find_cuts_indented :
    let template := Template.ofText (text "\x7ba\x7d\n\n\x7bb\x7d")
    let t := text "  ~~~\nx\n\ny\n~~~\n\nz"
    let captures := (find {} template t).captures
    (∀ literal ∈ template.literals, literal.MarkFree) ∧
      ⟨0, 14⟩ ∈ fences t ∧
      captures.map (fun c => c.passage.map Passage.span) = [some ⟨0, 7⟩, some ⟨9, 17⟩] ∧
      Span.IsCutAt ⟨0, 14⟩ 7 ∧ Span.IsCutAt ⟨0, 14⟩ 9 := by
  intro template t captures
  refine ⟨by decide +kernel, by decide +kernel, by decide +kernel, ?_, ?_⟩
  · exact ⟨by decide, by decide⟩
  · exact ⟨by decide, by decide⟩

end Captures

end InverseTemplate
