/-
# How far tags and components reach

The scanners of tags and components move a cursor, and a cursor may be moved past the end of its
text.  They never do: every place they go on from, and every place they report, lies within the
text.  So the source of a slot is as long as the slot's span says, and what is read behind a slot
begins where the slot ends.
-/
import InverseTemplate.Template.Block

namespace InverseTemplate

/-- The offset at which the text ends that a cursor looks at. -/
def Cursor.limit (c : Cursor) : Nat := c.offset + c.rest.length

namespace Cursor

theorem limit_advance {c : Cursor} {n : Nat} (h : n ≤ c.rest.length) :
    (c.advance n).limit = c.limit := by
  unfold limit
  rw [length_rest_advance]
  show c.offset + n + (c.rest.length - n) = c.offset + c.rest.length
  omega

theorem limit_skipWhile (p : Char → Bool) (c : Cursor) : (c.skipWhile p).limit = c.limit :=
  limit_advance (List.takeWhile_prefix p).length_le

end Cursor

theorem lt_length_of_braceLength? {depth n : Nat} {t : Text} (h : braceLength? depth t = some n) :
    n < t.length := by
  fun_induction braceLength? depth t generalizing n with
  | case1 => simp at h
  | case3 =>
      cases h
      exact Nat.succ_pos _
  | case2 _ _ ih | case4 _ _ _ ih | case5 _ _ _ _ _ ih =>
      obtain ⟨m, hm, rfl⟩ := Option.map_eq_some_iff.mp h
      exact Nat.succ_lt_succ (ih hm)

namespace Tag

theorem limit_of_scanValue {props props' : Entries Text} {attrName : Text} {c c' : Cursor}
    (h : scanValue props attrName c = .ok (props', c')) : c'.limit = c.limit := by
  unfold scanValue at h
  split at h
  · simp at h
  · next first inner hrest =>
      have hlen : c.rest.length = inner.length + 1 := by rw [hrest, List.length_cons]
      split at h
      · split at h
        · next n hn =>
            cases h
            have := lt_length_of_braceLength? hn
            exact Cursor.limit_advance (by omega)
        · simp at h
      · split at h
        · split at h
          · next n hn =>
              cases h
              have := (List.findIdx?_eq_some_iff_getElem.mp hn).1
              exact Cursor.limit_advance (by omega)
          · simp at h
        · simp at h

theorem le_limit_of_scanValue {props : Entries Text} {attrName : Text} {c : Cursor} {stop : Nat}
    (h : scanValue props attrName c = .error stop) : stop ≤ c.limit := by
  have hhere : c.offset ≤ c.limit := Nat.le_add_right _ _
  have hend : c.offset + c.rest.length ≤ c.limit := Nat.le_refl _
  unfold scanValue at h
  split at h
  · cases h
    exact hhere
  · split at h
    · split at h
      · simp at h
      · cases h
        exact hend
    · split at h
      · split at h
        · simp at h
        · cases h
          exact hend
      · cases h
        exact hhere

theorem limit_behind {here : Cursor} {first : Char} {r : Text} (h : here.rest = first :: r) :
    ((here.advance (first :: r.takeWhile isAttributeChar).length).skipWhile Text.isBlank).limit =
      here.limit := by
  have := (List.takeWhile_prefix isAttributeChar (l := r)).length_le
  rw [Cursor.limit_skipWhile, Cursor.limit_advance]
  rw [h, List.length_cons, List.length_cons]
  omega

theorem limit_value {c : Cursor} {first : Char} (h : c.rest.head? = some first) :
    ((c.advance 1).skipWhile Text.isBlank).limit = c.limit := by
  rw [Cursor.limit_skipWhile, Cursor.limit_advance]
  cases hrest : c.rest with
  | nil => simp [hrest] at h
  | cons _ _ => simp

theorem stop_of_scanAttributes (name : Text) (props : Entries Text) (c : Cursor) :
    (scanAttributes name props c).2 ≤ c.limit ∧
      ∀ tag, (scanAttributes name props c).1 = some tag →
        tag.stop = (scanAttributes name props c).2 := by
  have hskip : ∀ c : Cursor, (c.skipWhile Text.isBlank).offset ≤ c.limit := fun c => by
    rw [← Cursor.limit_skipWhile Text.isBlank c]
    exact Nat.le_add_right _ _
  fun_induction scanAttributes name props c with
  | case1 _ c | case7 _ c => exact ⟨hskip c, by simp⟩
  | case2 _ c here first r hrest hclose =>
      refine ⟨?_, by rintro tag ⟨rfl⟩; rfl⟩
      rw [← Cursor.limit_skipWhile Text.isBlank c]
      show here.offset + 2 ≤ here.offset + here.rest.length
      have hr : r ≠ [] := by
        rintro rfl
        simp at hclose
      have := List.length_pos_iff.mpr hr
      rw [hrest, List.length_cons]
      omega
  | case3 _ c here r hrest =>
      refine ⟨?_, by rintro tag ⟨rfl⟩; rfl⟩
      rw [← Cursor.limit_skipWhile Text.isBlank c]
      show here.offset + 1 ≤ here.offset + here.rest.length
      rw [hrest, List.length_cons]
      omega
  | case4 _ c here first r hrest _ _ _ attrName behind heq _ next hv ih =>
      have hlimit : next.limit = c.limit := by
        rw [limit_of_scanValue hv, limit_value heq, limit_behind hrest, Cursor.limit_skipWhile]
      exact ⟨hlimit ▸ ih.1, ih.2⟩
  | case5 _ c here first r hrest _ _ _ attrName behind heq stop hv =>
      refine ⟨?_, by simp⟩
      have := le_limit_of_scanValue hv
      rwa [limit_value heq, limit_behind hrest, Cursor.limit_skipWhile] at this
  | case6 _ c here first r hrest _ _ _ attrName behind _ ih =>
      have hlimit : behind.limit = c.limit := by
        rw [limit_behind hrest, Cursor.limit_skipWhile]
      exact ⟨hlimit ▸ ih.1, ih.2⟩

theorem stop_le_limit_of_scanAt {c : Cursor} {tag : Tag} (h : (scanAt c).1 = some tag) :
    tag.stop ≤ c.limit := by
  unfold scanAt at h
  split at h
  · next first r hrest =>
      split at h
      · obtain ⟨hle, hstop⟩ := stop_of_scanAttributes
          (first :: r.takeWhile Text.isWordChar) []
          (c.advance ((first :: r.takeWhile Text.isWordChar).length + 1))
        have := (List.takeWhile_prefix Text.isWordChar (l := r)).length_le
        rw [Cursor.limit_advance (by rw [hrest]; simp; omega), ← hstop tag h] at hle
        exact hle
      · simp at h
  · simp at h

theorem snd_scanAt_le_limit {c : Cursor} (h : c.rest ≠ []) : (scanAt c).2 ≤ c.limit := by
  have hone : c.offset + 1 ≤ c.limit := Nat.add_le_add_left (List.length_pos_iff.mpr h) c.offset
  unfold scanAt
  split
  · next first r hrest =>
      split
      · have hle := (stop_of_scanAttributes (first :: r.takeWhile Text.isWordChar) []
          (c.advance ((first :: r.takeWhile Text.isWordChar).length + 1))).1
        have := (List.takeWhile_prefix Text.isWordChar (l := r)).length_le
        rw [Cursor.limit_advance (by rw [hrest]; simp; omega)] at hle
        exact hle
      · exact hone
  · exact hone

theorem brokenEnd_le_limit {c : Cursor} (h : c.rest ≠ []) : brokenEnd c ≤ c.limit := by
  have hone : c.offset + 1 ≤ c.limit := Nat.add_le_add_left (List.length_pos_iff.mpr h) c.offset
  have hstop := snd_scanAt_le_limit h
  unfold brokenEnd
  split
  · next tag _ htag => exact stop_le_limit_of_scanAt (by rw [htag])
  · next htag =>
      rw [htag] at hstop
      exact Nat.max_le.mpr ⟨hstop, hone⟩

end Tag

namespace Block

theorem length_le_of_mentions {mark name t : Text} (h : mentions mark name t = true) :
    mark.length + name.length ≤ t.length := by
  rw [mentions, Bool.and_eq_true, List.isPrefixOf_iff_prefix] at h
  have := h.1.length_le
  rwa [List.length_append] at this

theorem limit_inner {name : Text} {c : Cursor} (h : mentions ['<', '/'] name c.rest = true) :
    (c.advance (name.length + 2)).limit = c.limit := by
  have := length_le_of_mentions h
  exact Cursor.limit_advance (by rw [Nat.add_comm]; exact this)

theorem stop_le_limit_of_closingTag? {name : Text} {depth : Nat} {c : Cursor} {s : Span}
    (h : closingTag? name depth c = some s) : s.stop ≤ c.limit := by
  fun_induction closingTag? name depth c with
  | case1 | case2 => simp at h
  | case3 c _ _ _ hmentions inner n hn =>
      cases h
      have := (List.findIdx?_eq_some_iff_getElem.mp hn).1
      rw [← limit_inner hmentions]
      show inner.offset + n + 1 ≤ inner.offset + inner.rest.length
      omega
  | case4 c _ _ _ hmentions inner n hn _ ih =>
      have := (List.findIdx?_eq_some_iff_getElem.mp hn).1
      rw [← limit_inner hmentions, ← Cursor.limit_advance (c := inner) (n := n + 1) (by omega)]
      exact ih h
  | case5 _ c _ _ _ _ _ tag ht ih =>
      have hle := Tag.stop_le_limit_of_scanAt ht
      rw [← Cursor.limit_advance (c := c) (n := tag.stop - c.offset)
        (by unfold Cursor.limit at hle; omega)]
      exact ih h
  | case6 _ c _ _ _ _ hmentions _ ih =>
      have := length_le_of_mentions hmentions
      rw [← Cursor.limit_advance (c := c) (n := name.length + 1) (by rw [Nat.add_comm]; exact this)]
      exact ih h
  | case7 _ c _ _ hrest _ _ ih =>
      rw [← Cursor.limit_advance (c := c) (n := 1) (by rw [hrest]; simp)]
      exact ih h

end Block

theorem stop_le_limit_of_componentAt? {c : Cursor} {s : Slot} (h : componentAt? c = some s) :
    s.stop ≤ c.limit := by
  unfold componentAt? at h
  split at h
  · simp at h
  · next tag ht =>
      have hle := Tag.stop_le_limit_of_scanAt ht
      split at h
      · cases h
        exact hle
      · obtain ⟨closing, hclosing, rfl⟩ := Option.map_eq_some_iff.mp h
        rw [← Cursor.limit_advance (c := c) (n := tag.stop - c.offset)
          (by unfold Cursor.limit at hle; omega)]
        exact Block.stop_le_limit_of_closingTag? hclosing

end InverseTemplate
