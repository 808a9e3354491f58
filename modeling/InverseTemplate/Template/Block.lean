/-
# Block components

A component whose tag is not self-closing runs up to the closing tag that matches its opening
one.  Tags of the same name in between nest: each opening one that is well formed and not
self-closing needs a closing tag of its own.  A name counts as mentioned only if a blank, a
slash or a greater-than sign follows it, so that longer names do not interfere.

Without a matching closing tag the opening tag is not a component at all.
-/
import InverseTemplate.Template.Tag

namespace InverseTemplate

namespace Block

/-- Does the text begin with `mark` and the whole name? -/
def mentions (mark name t : Text) : Bool :=
  (mark ++ name).isPrefixOf t &&
    match (t.drop (mark ++ name).length).head? with
    | some c => Text.isBlank c || c = '/' || c = '>'
    | none => false

/-- The closing tag that matches an opening one of the given name, when the scan begins behind
the opening tag and `depth` more blocks of the name are open around the place. -/
def closingTag? (name : Text) (depth : Nat) (c : Cursor) : Option Span :=
  match _h : c.rest with
  | [] => none
  | _ :: _ =>
      if mentions ['<', '/'] name c.rest then
        let inner := c.advance (name.length + 2)
        match inner.rest.findIdx? (· = '>') with
        | none => none
        | some n =>
            match depth with
            | 0 => some ⟨c.offset, inner.offset + n + 1⟩
            | outer + 1 => closingTag? name outer (inner.advance (n + 1))
      else if mentions ['<'] name c.rest then
        match _ht : (Tag.scanAt c).1 with
        | some tag =>
            closingTag? name (if tag.selfClosing then depth else depth + 1)
              (c.advance (tag.stop - c.offset))
        | none => closingTag? name depth (c.advance (name.length + 1))
      else closingTag? name depth (c.advance 1)
termination_by c.rest.length
decreasing_by
  all_goals have h : 0 < c.rest.length := by rw [_h]; simp
  · show (inner.advance (n + 1)).rest.length < c.rest.length
    simp only [inner, Cursor.length_rest_advance]
    omega
  · have := Tag.offset_lt_stop_of_scanAt _ht
    rw [Cursor.length_rest_advance]
    omega
  all_goals
    rw [Cursor.length_rest_advance]
    omega

theorem le_start_of_closingTag? {name : Text} {depth : Nat} {c : Cursor} {s : Span}
    (h : closingTag? name depth c = some s) : c.offset ≤ s.start ∧ s.start < s.stop := by
  fun_induction closingTag? name depth c with
  | case1 | case2 => simp at h
  | case3 c _ _ _ _ inner n _ =>
      cases h
      simp only [inner, Cursor.advance]
      omega
  | case4 c _ _ _ _ inner n _ outer ih =>
      have := ih h
      simp only [inner, Cursor.advance] at this
      omega
  | case5 _ c _ _ _ _ _ _ _ ih =>
      have := ih h
      simp only [Cursor.advance] at this
      omega
  | case6 _ c _ _ _ _ _ _ ih =>
      have := ih h
      simp only [Cursor.advance] at this
      omega
  | case7 _ c _ _ _ _ _ ih =>
      have := ih h
      simp only [Cursor.advance] at this
      omega

end Block

/-- The component slot whose tag begins at a place. -/
def componentAt? (c : Cursor) : Option Slot :=
  match (Tag.scanAt c).1 with
  | none => none
  | some tag =>
      let behind := c.advance (tag.stop - c.offset)
      if tag.selfClosing then
        some
          { content := .component tag.name tag.props none
            raw := c.rest.take (tag.stop - c.offset)
            start := c.offset
            stop := tag.stop }
      else
        (Block.closingTag? tag.name 0 behind).map fun closing =>
          { content := .component tag.name tag.props
              (some (behind.rest.take (closing.start - tag.stop)))
            raw := c.rest.take (closing.stop - c.offset)
            start := c.offset
            stop := closing.stop }

theorem offset_lt_stop_of_componentAt? {c : Cursor} {s : Slot} (h : componentAt? c = some s) :
    c.offset = s.start ∧ s.start < s.stop ∧ s.raw = c.rest.take (s.stop - s.start) := by
  unfold componentAt? at h
  split at h
  · simp at h
  · next tag ht =>
      have hlt := Tag.offset_lt_stop_of_scanAt ht
      split at h
      · cases h
        exact ⟨rfl, hlt, rfl⟩
      · rw [Option.map_eq_some_iff] at h
        obtain ⟨closing, hc, rfl⟩ := h
        have := Block.le_start_of_closingTag? hc
        simp only [Cursor.advance] at this
        refine ⟨rfl, ?_, rfl⟩
        show c.offset < closing.stop
        omega

end InverseTemplate
