/-
# Where slots are read

A slot is read at one place of the text: at an opening brace whose group holds an expression, or at
the less-than sign of a component.  What the rest of the theory needs to know about the reading of a
template is this, and that the place is one at which the lookup among the code regions finds nothing
(`Template.exists_readAt`).

The scan looks at code only in this way, before it reads a slot.  Within a fence the lookup is never
wrong, so no slot begins there (`Template.start_outside_fences`), whatever code spans lie across the
fence, around it or next to it.
-/
import InverseTemplate.Proofs.Markdown.Regions
import InverseTemplate.Proofs.Template.Paths

namespace InverseTemplate

/-- The slot is what begins at a place: the group of braces there, if it holds more than blanks and
no comment, or the component there. -/
inductive Slot.ReadAt (c : Cursor) (s : Slot) : Prop
  | brace (inner : Text) (n : Nat) :
      c.rest = '\x7b' :: inner → braceLength? 0 inner = some n →
      Expression.isComment (Text.strip (inner.take n)) = false →
      Text.strip (inner.take n) ≠ [] →
      s = { content := .ofExpression (Text.strip (inner.take n))
            raw := c.rest.take (n + 2)
            start := c.offset
            stop := c.offset + n + 2 } →
      Slot.ReadAt c s
  | component : componentAt? c = some s → Slot.ReadAt c s

theorem Slot.ReadAt.start_eq {c : Cursor} {s : Slot} (h : s.ReadAt c) : s.start = c.offset := by
  cases h with
  | brace inner n hrest hn hcomment hne heq => rw [heq]
  | component h => exact (offset_lt_stop_of_componentAt? h).1.symm

theorem head?_of_componentAt? {c : Cursor} {s : Slot} (h : componentAt? c = some s) :
    c.rest.head? = some '<' := by
  rw [componentAt?] at h
  split at h
  · simp at h
  · next tag ht =>
      rw [Tag.scanAt] at ht
      split at ht
      · next hrest => simp [hrest]
      · simp at ht

theorem Slot.ReadAt.head?_rest {c : Cursor} {s : Slot} (h : s.ReadAt c) :
    c.rest.head? = some '\x7b' ∨ c.rest.head? = some '<' := by
  cases h with
  | brace inner n hrest => exact .inl (by rw [hrest]; rfl)
  | component h => exact .inr (head?_of_componentAt? h)

namespace Piece

theorem ofBrace_eq_slot_iff {c : Cursor} {inner : Text} {s : Slot}
    (hrest : c.rest = '\x7b' :: inner) :
    ofBrace c inner = .slot s ↔ s.ReadAt c := by
  constructor
  · intro h
    rw [ofBrace] at h
    split at h
    · simp at h
    · next n hn =>
        dsimp only at h
        split at h
        · simp at h
        · next hcomment =>
            split at h
            · simp at h
            · next hne =>
                cases h
                exact .brace inner n hrest hn (by simpa using hcomment) hne rfl
  · intro h
    cases h with
    | brace inner' n hrest' hn hcomment hne heq =>
        rw [hrest] at hrest'
        cases hrest'
        rw [ofBrace, hn]
        dsimp only
        rw [hcomment, if_neg (by simp), if_neg hne, heq]
    | component h =>
        have := head?_of_componentAt? h
        simp [hrest] at this

theorem ofAngle_eq_slot_iff {c : Cursor} {s : Slot} :
    ofAngle c = .slot s ↔ componentAt? c = some s := by
  rw [ofAngle]
  cases componentAt? c with
  | none => simp
  | some s' => simp

/-- The piece that begins at a place is a slot if it can be read there and the lookup finds no code
around the place. -/
theorem ofCursor_eq_slot_iff {regions : List Span} {c : Cursor} {first : Char} {more : Text}
    {s : Slot} (hrest : c.rest = first :: more) :
    ofCursor regions c first more = .slot s ↔
      Span.containing? regions c.offset = none ∧ s.ReadAt c := by
  have hfirst : c.rest.head? = some first := by
    rw [hrest]
    rfl
  rw [ofCursor]
  split
  · cases hregion : Span.containing? regions c.offset with
    | some region => simp
    | none =>
        simp only [true_and]
        split
        · next hbrace =>
            subst hbrace
            exact ofBrace_eq_slot_iff hrest
        · next hbrace =>
            rw [ofAngle_eq_slot_iff]
            constructor
            · exact .component
            · intro h
              cases h with
              | brace inner n hrest' =>
                  rw [hrest] at hrest'
                  cases hrest'
                  exact absurd rfl hbrace
              | component h => exact h
  · next hother =>
      constructor
      · intro h
        simp at h
      · rintro ⟨-, h⟩
        refine absurd ?_ hother
        simpa [hfirst] using h.head?_rest

end Piece

/-! ## Places of the scan -/

theorem piecesFrom_nil {regions : List Span} {c : Cursor} (h : c.rest = []) :
    piecesFrom regions c = [] := by
  rw [piecesFrom]
  split
  · rfl
  · next hrest =>
      rw [h] at hrest
      cases hrest

theorem piecesFrom_cons {regions : List Span} {c : Cursor} {first : Char} {more : Text}
    (h : c.rest = first :: more) :
    piecesFrom regions c =
      Piece.ofCursor regions c first more ::
        piecesFrom regions
          (c.advance (max (Piece.ofCursor regions c first more).source.length 1)) := by
  rw [piecesFrom]
  split
  · next hrest =>
      rw [h] at hrest
      cases hrest
  · next hrest =>
      rw [h] at hrest
      cases hrest
      rfl

/-- The scan that begins at the first place comes to the second one. -/
inductive Visits (regions : List Span) : Cursor → Cursor → Prop
  | here {c : Cursor} : Visits regions c c
  | behind {c c' : Cursor} {first : Char} {more : Text} : c.rest = first :: more →
      Visits regions
        (c.advance (max (Piece.ofCursor regions c first more).source.length 1)) c' →
      Visits regions c c'

theorem Visits.isIn {regions : List Span} {t : Text} {c c' : Cursor} (h : Visits regions c c')
    (hc : c.IsIn t) : c'.IsIn t := by
  induction h with
  | here => exact hc
  | behind _ _ ih => exact ih (hc.advance _)

/-- A slot is among the pieces from a place on exactly if it can be read at a place that the scan
comes to, and the lookup finds nothing there. -/
theorem slot_mem_piecesFrom_iff {regions : List Span} {s : Slot} {c : Cursor} :
    .slot s ∈ piecesFrom regions c ↔
      ∃ c', Visits regions c c' ∧ Span.containing? regions c'.offset = none ∧ s.ReadAt c' := by
  constructor
  · intro h
    fun_induction piecesFrom regions c with
    | case1 => simp at h
    | case2 c first more hrest piece ih =>
        rcases List.mem_cons.mp h with heq | hmem
        · exact ⟨c, .here, (Piece.ofCursor_eq_slot_iff hrest).mp heq.symm⟩
        · obtain ⟨c', hvisits, hread⟩ := ih hmem
          exact ⟨c', .behind hrest hvisits, hread⟩
  · rintro ⟨c', hvisits, hnone, hread⟩
    induction hvisits with
    | @here c =>
        cases hrest : c.rest with
        | nil => simpa [hrest] using hread.head?_rest
        | cons first more =>
            rw [piecesFrom_cons hrest, (Piece.ofCursor_eq_slot_iff hrest).mpr ⟨hnone, hread⟩]
            exact List.mem_cons_self ..
    | behind hrest _ ih =>
        rw [piecesFrom_cons hrest]
        exact List.mem_cons_of_mem _ (ih hnone hread)

namespace Template

variable {t : Text} {s : Slot}

/-- Every slot is read at a place of the text around which the lookup finds no code. -/
theorem exists_readAt (h : s ∈ (ofText t).slots) :
    ∃ c, c.IsIn t ∧ Span.containing? (codeRegions t) c.offset = none ∧ s.ReadAt c := by
  obtain ⟨c, hvisits, hread⟩ := slot_mem_piecesFrom_iff.mp (mem_slots_ofPieces.mp h)
  exact ⟨c, hvisits.isIn (Cursor.isIn_ofOffset t 0), hread⟩

/-- No slot begins inside a fence. -/
theorem start_outside_fences (h : s ∈ (ofText t).slots) {block : Span} (hblock : block ∈ fences t) :
    block.holds s.start = false := by
  obtain ⟨c, -, hnone, hread⟩ := exists_readAt h
  rw [← hread.start_eq] at hnone
  rw [Span.holds, Bool.and_eq_false_iff, decide_eq_false_iff_not, decide_eq_false_iff_not]
  by_cases hstart : block.start ≤ s.start
  · refine .inr fun hstop => ?_
    rw [containing?_codeRegions_of_mem_fences hblock hstart hstop] at hnone
    simp at hnone
  · exact .inl hstart

/-- A code span that encloses a fence: the braces in the fence are code, those behind it are not. -/
theorem start_outside_fences_enclosed :
    let t := text "\x60a\n\x60\x60\x60\n\x7bx\x7d\n\x60\x60\x60\n\x7by\x7d\x60"
    let s : Slot := ⟨.expression ['y'], text "\x7by\x7d", 15, 18⟩
    codeRegions t = [⟨0, 19⟩, ⟨3, 14⟩] ∧ (ofText t).slots = [s] ∧
      Span.holds ⟨3, 14⟩ s.start = false := by
  intro t s
  have hfences : fences t = [⟨3, 14⟩] := by decide +kernel
  have hspans : codeSpans t = [⟨0, 19⟩] := by decide +kernel
  have hregions : codeRegions t = [⟨0, 19⟩, ⟨3, 14⟩] :=
    codeRegions_eq_pair hfences hspans (by decide)
  have hslots : (ofText t).slots = [s] := by
    rw [ofText, pieces, hregions]
    decide +kernel
  have hs : s ∈ (ofText t).slots := by
    rw [hslots]
    exact List.mem_singleton_self s
  have hblock : ⟨3, 14⟩ ∈ fences t := by
    rw [hfences]
    exact List.mem_singleton_self _
  exact ⟨hregions, hslots, start_outside_fences hs hblock⟩

end Template

end InverseTemplate
