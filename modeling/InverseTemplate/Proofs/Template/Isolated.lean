/-
# Slots on their own

The source of a slot is a template of its own, and what is read there is the slot
(`Template.ofText_raw`): nothing that stands behind a slot in a text has a say in where it ends or
what it holds.

For a group of braces this is plain.  A component is ended by a search that passes nested tags,
and a nested tag that is given up in the text may have been given up far behind the slot.  The
search is followed step by step (`Block.closingTag?_excerpt`): what it finds lies in front of the
end of the slot, and what it gives up in the text it gives up in the excerpt.

Code is looked up in the source alone, too.  The source begins with a brace or a less-than sign,
so no code region of it begins where the slot does.
-/
import InverseTemplate.Proofs.Template.Excerpt
import InverseTemplate.Proofs.Template.Extent
import InverseTemplate.Proofs.Template.Origin

namespace InverseTemplate

variable {base stop : Nat} {c : Cursor}

/-! ## Closing tags -/

namespace Block

theorem closingTag?_cons {name : Text} {depth : Nat} {c : Cursor} (h : c.rest ≠ []) :
    closingTag? name depth c =
      let inner := c.advance (name.length + 2)
      if mentions ['<', '/'] name c.rest then
        match inner.rest.findIdx? (· = '>') with
        | none => none
        | some n =>
            match depth with
            | 0 => some ⟨c.offset, inner.offset + n + 1⟩
            | outer + 1 => closingTag? name outer (inner.advance (n + 1))
      else if mentions ['<'] name c.rest then
        match (Tag.scanAt c).1 with
        | some tag =>
            closingTag? name (if tag.selfClosing then depth else depth + 1)
              (c.advance (tag.stop - c.offset))
        | none => closingTag? name depth (c.advance (name.length + 1))
      else closingTag? name depth (c.advance 1) := by
  rw [closingTag?.eq_def]
  split
  · next hrest => exact absurd hrest h
  · next =>
      dsimp only
      congr 2
      split
      · next ht => rw [ht]
      · next ht => rw [ht]

/-- A name is mentioned in the beginning of a text if it is mentioned in the text and the beginning
goes on behind it. -/
theorem mentions_take (mark name t : Text) (k : Nat) :
    mentions mark name (t.take k) =
      (decide ((mark ++ name).length < k) && mentions mark name t) := by
  rw [mentions, mentions]
  generalize mark ++ name = word
  by_cases hk : word.length < k
  · have hbegins : word.isPrefixOf (t.take k) = word.isPrefixOf t := by
      rw [Bool.eq_iff_iff, List.isPrefixOf_iff_prefix, List.isPrefixOf_iff_prefix,
        List.prefix_take_iff]
      exact ⟨And.left, fun h => ⟨h, Nat.le_of_lt hk⟩⟩
    have hhead : ((t.take k).drop word.length).head? = (t.drop word.length).head? := by
      rw [List.drop_take, List.head?_take, if_neg (by omega)]
    rw [hbegins, hhead, decide_eq_true hk, Bool.true_and]
  · have hhead : (t.take k).drop word.length = [] := by
      rw [List.drop_eq_nil_iff]
      exact Nat.le_trans (List.length_take_le _ _) (Nat.le_of_not_lt hk)
    rw [hhead, decide_eq_false hk]
    simp

/-- A closing tag holds its marks and the name, so there is room for them behind the place at which
the scan began. -/
theorem lt_stop_of_closingTag? {name : Text} {depth : Nat} {s : Span}
    (h : closingTag? name depth c = some s) : c.offset + name.length + 2 < s.stop := by
  refine Nat.lt_of_le_of_lt (Nat.add_le_add_right (Nat.add_le_add_right
    (le_start_of_closingTag? h).1 _) _) ?_
  fun_induction closingTag? name depth c with
  | case1 | case2 => simp at h
  | case3 c _ _ _ _ inner n _ =>
      cases h
      simp only [inner, Cursor.advance]
      omega
  | case4 _ _ _ _ _ _ _ _ _ ih | case5 _ _ _ _ _ _ _ _ _ ih | case6 _ _ _ _ _ _ _ _ ih
  | case7 _ _ _ _ _ _ _ ih => exact ih h

theorem mentions_excerpt {mark name : Text} (h : c.offset + mark.length + name.length < stop) :
    mentions mark name (c.excerpt base stop).rest = mentions mark name c.rest := by
  rw [Cursor.excerpt, mentions_take, List.length_append, decide_eq_true (by omega), Bool.true_and]

theorem closingTag?_excerpt_cons {name : Text} {depth : Nat} {first : Char} {r : Text}
    (hbase : base ≤ c.offset) (hrest : c.rest = first :: r)
    (hlt : c.offset + name.length + 2 < stop) :
    closingTag? name depth (c.excerpt base stop) =
      let inner := c.advance (name.length + 2)
      if mentions ['<', '/'] name c.rest then
        match (inner.excerpt base stop).rest.findIdx? (· = '>') with
        | none => none
        | some n =>
            match depth with
            | 0 => some ⟨c.offset - base, inner.offset - base + n + 1⟩
            | outer + 1 => closingTag? name outer ((inner.advance (n + 1)).excerpt base stop)
      else if mentions ['<'] name c.rest then
        match (Tag.scanAt c).1.bind (Tag.excerpt? base stop) with
        | some tag =>
            closingTag? name (if tag.selfClosing then depth else depth + 1)
              ((c.advance (tag.stop - (c.offset - base))).excerpt base stop)
        | none => closingTag? name depth ((c.advance (name.length + 1)).excerpt base stop)
      else closingTag? name depth ((c.advance 1).excerpt base stop) := by
  have hcons : (c.excerpt base stop).rest ≠ [] := by
    rw [Cursor.rest_excerpt_cons hrest (by omega)]
    exact List.cons_ne_nil _ _
  have hinner : base ≤ (c.advance (name.length + 2)).offset := Nat.le_add_right_of_le hbase
  rw [closingTag?_cons hcons, mentions_excerpt (by simp; omega),
    mentions_excerpt (by simp; omega), Tag.scanAt_excerpt hbase]
  simp only [Cursor.advance_excerpt hbase, Cursor.advance_excerpt hinner]
  rfl

theorem findIdx?_excerpt {p : Char → Bool} {n : Nat} (h : c.rest.findIdx? p = some n)
    (hlt : c.offset + n < stop) : (c.excerpt base stop).rest.findIdx? p = some n := by
  have hn : n < stop - c.offset := by omega
  rw [Cursor.excerpt, List.findIdx?_take, h, Option.bind_some, Option.guard,
    if_pos (by simpa using hn)]

/-- The closing tag that is found in a text is found in an excerpt that holds it.  The scan passes
the same tags in front of it in both: those that are opened in the text end in front of the closing
tag, and those that are given up there are given up in the excerpt. -/
theorem closingTag?_excerpt {name : Text} {depth : Nat} {s : Span}
    (h : closingTag? name depth c = some s) (hbase : base ≤ c.offset) (hstop : s.stop ≤ stop) :
    closingTag? name depth (c.excerpt base stop) = some ⟨s.start - base, s.stop - base⟩ := by
  have hlt : c.offset + name.length + 2 < stop :=
    Nat.lt_of_lt_of_le (lt_stop_of_closingTag? h) hstop
  fun_induction closingTag? name depth c with
  | case1 | case2 => simp at h
  | case3 c _ _ hrest hmentions inner n hn =>
      cases h
      have hinner : base ≤ inner.offset := Nat.le_add_right_of_le hbase
      rw [closingTag?_excerpt_cons hbase hrest hlt, if_pos hmentions, findIdx?_excerpt hn hstop]
      simp only [Option.some.injEq, Span.mk.injEq, true_and]
      show inner.offset - base + n + 1 = _
      omega
  | case4 c _ _ hrest hmentions inner n hn outer ih =>
      have hlt' := Nat.lt_of_lt_of_le (lt_stop_of_closingTag? h) hstop
      have hinner : base ≤ (inner.advance (n + 1)).offset :=
        Nat.le_add_right_of_le (Nat.le_add_right_of_le hbase)
      rw [Cursor.offset_advance] at hlt'
      rw [closingTag?_excerpt_cons hbase hrest hlt, if_pos hmentions,
        findIdx?_excerpt hn (by omega)]
      exact ih h hinner (by rw [Cursor.offset_advance]; exact hlt')
  | case5 depth c _ _ hrest hclosing hmentions tag ht ih =>
      have hlt' := Nat.lt_of_lt_of_le (lt_stop_of_closingTag? h) hstop
      rw [Cursor.offset_advance] at hlt'
      have hwhere : tag.stop - base - (c.offset - base) = tag.stop - c.offset := by omega
      rw [closingTag?_excerpt_cons hbase hrest hlt, if_neg hclosing, if_pos hmentions, ht,
        Option.bind_some, Tag.excerpt?, if_pos (by omega)]
      simp only [hwhere]
      exact ih h (Nat.le_add_right_of_le hbase) (by rw [Cursor.offset_advance]; exact hlt')
  | case6 depth c _ _ hrest hclosing hmentions ht ih =>
      have hlt' := Nat.lt_of_lt_of_le (lt_stop_of_closingTag? h) hstop
      rw [closingTag?_excerpt_cons hbase hrest hlt, if_neg hclosing, if_pos hmentions, ht]
      exact ih h (Nat.le_add_right_of_le hbase) hlt'
  | case7 depth c _ _ hrest hclosing hmentions ih =>
      have hlt' := Nat.lt_of_lt_of_le (lt_stop_of_closingTag? h) hstop
      rw [closingTag?_excerpt_cons hbase hrest hlt, if_neg hclosing, if_neg hmentions]
      exact ih h (Nat.le_add_right_of_le hbase) hlt'

end Block

/-! ## Slots -/

/-- A slot of a text, as it stands in the excerpt that begins at `base`. -/
def Slot.excerpt (base : Nat) (s : Slot) : Slot :=
  { s with start := s.start - base, stop := s.stop - base }

theorem Cursor.take_rest_excerpt {n : Nat} (h : c.offset + n ≤ stop) :
    (c.excerpt base stop).rest.take n = c.rest.take n := by
  rw [excerpt, List.take_take, Nat.min_eq_left (by omega)]

theorem componentAt?_excerpt {s : Slot} (h : componentAt? c = some s) (hbase : base ≤ c.offset)
    (hstop : s.stop ≤ stop) : componentAt? (c.excerpt base stop) = some (s.excerpt base) := by
  have hoffset : (c.excerpt base stop).offset = c.offset - base := rfl
  rw [componentAt?] at h
  split at h
  · cases h
  · next tag ht =>
      have hpos := Tag.offset_lt_stop_of_scanAt ht
      have hwithin : tag.stop - base - (c.offset - base) = tag.stop - c.offset := by omega
      have htag : tag.stop ≤ stop → (Tag.scanAt (c.excerpt base stop)).1 =
          some { tag with stop := tag.stop - base } := fun hle => by
        rw [Tag.scanAt_excerpt hbase, ht, Option.bind_some, Tag.excerpt?, if_pos hle]
      split at h
      · next hself =>
          cases h
          have hle : tag.stop ≤ stop := hstop
          rw [componentAt?, htag hle]
          simp only [hself, if_true, hoffset, hwithin]
          rw [Cursor.take_rest_excerpt (by omega)]
          rfl
      · next hself =>
          obtain ⟨closing, hclosing, rfl⟩ := Option.map_eq_some_iff.mp h
          obtain ⟨hle, hlt⟩ := Block.le_start_of_closingTag? hclosing
          have hbehind : (c.advance (tag.stop - c.offset)).offset = tag.stop :=
            Nat.add_sub_cancel' (Nat.le_of_lt hpos)
          have hends : closing.stop ≤ stop := hstop
          have hraw : closing.stop - base - (c.offset - base) = closing.stop - c.offset := by omega
          have hchildren : closing.start - base - (tag.stop - base) = closing.start - tag.stop := by
            omega
          rw [componentAt?, htag (by omega)]
          simp only [if_neg hself, hoffset, hwithin, Cursor.advance_excerpt hbase,
            Block.closingTag?_excerpt hclosing (Nat.le_add_right_of_le hbase) hends,
            Option.map_some, hraw, hchildren]
          rw [Cursor.take_rest_excerpt (by omega), Cursor.take_rest_excerpt (by omega)]
          rfl

/-- What is read at a place of the text is read there in an excerpt that holds it. -/
theorem Slot.ReadAt.excerpt {s : Slot} (h : s.ReadAt c) (hbase : base ≤ c.offset)
    (hstop : s.stop ≤ stop) : (s.excerpt base).ReadAt (c.excerpt base stop) := by
  cases h with
  | brace inner n hrest hn hcomment hne heq =>
      have hle : c.offset + n + 2 ≤ stop := by
        rw [heq] at hstop
        exact hstop
      have hlt : n < stop - (c.offset + 1) := by omega
      have htake : (inner.take (stop - (c.offset + 1))).take n = inner.take n := by
        rw [List.take_take, Nat.min_eq_left (Nat.le_of_lt hlt)]
      refine .brace (inner.take (stop - (c.offset + 1))) n ?_ ?_ ?_ ?_ ?_
      · exact Cursor.rest_excerpt_cons hrest (by omega)
      · rw [braceLength?_take, hn]
        simp [Option.filter, hlt]
      · rw [htake]
        exact hcomment
      · rw [htake]
        exact hne
      · have hoffset : (c.excerpt base stop).offset = c.offset - base := rfl
        rw [htake, heq, Cursor.take_rest_excerpt (by omega)]
        simp only [Slot.excerpt, Slot.mk.injEq, true_and]
        omega
  | component h => exact .component (componentAt?_excerpt h hbase hstop)

theorem Slot.ReadAt.raw_eq {s : Slot} (h : s.ReadAt c) :
    s.raw = c.rest.take (s.stop - c.offset) := by
  cases h with
  | brace inner n hrest hn hcomment hne heq =>
      rw [heq]
      simp only
      congr 1
      omega
  | component h =>
      obtain ⟨hstart, -, hraw⟩ := offset_lt_stop_of_componentAt? h
      rw [hraw, hstart]

theorem Slot.ReadAt.stop_le_limit {s : Slot} (h : s.ReadAt c) : s.stop ≤ c.limit := by
  cases h with
  | brace inner n hrest hn hcomment hne heq =>
      have hlt := lt_length_of_braceLength? hn
      have hlen := congrArg List.length hrest
      rw [List.length_cons] at hlen
      rw [heq, Cursor.limit]
      show c.offset + n + 2 ≤ _
      omega
  | component h => exact stop_le_limit_of_componentAt? h

theorem Slot.ReadAt.length_raw {s : Slot} (h : s.ReadAt c) : s.raw.length = s.stop - c.offset := by
  have hle := h.stop_le_limit
  rw [Cursor.limit] at hle
  rw [h.raw_eq, List.length_take]
  omega

/-! ## The source of a slot as a template -/

namespace Template

variable {t : Text} {s : Slot}

theorem containing?_codeRegions_zero (h : t.head? = some '\x7b' ∨ t.head? = some '<') :
    Span.containing? (codeRegions t) 0 = none := by
  rw [Option.eq_none_iff_forall_ne_some]
  intro region hregion
  obtain ⟨hmem, hstart, -⟩ := Span.holds_of_containing? hregion
  obtain ⟨mark, hmark, hcode⟩ := exists_mark_of_mem_codeRegions hmem
  rw [Nat.le_zero.mp hstart, ← List.head?_eq_getElem?] at hmark
  rcases h with h | h
  all_goals
    rw [hmark] at h
    cases h
    revert hcode
    decide

theorem pieces_eq_singleton {first : Char} {more : Text} {piece : Piece}
    (hpiece : Piece.ofCursor (codeRegions (first :: more)) ⟨0, first :: more⟩ first more = piece)
    (hsource : piece.source = first :: more) : pieces (first :: more) = [piece] := by
  have hbegin : Cursor.ofOffset (first :: more) 0 = ⟨0, first :: more⟩ := rfl
  rw [pieces, hbegin, piecesFrom_cons rfl, hpiece, hsource, piecesFrom_nil]
  show List.drop _ (first :: more) = []
  rw [List.drop_eq_nil_iff]
  exact Nat.le_max_left ..

/-- A text that is read as one slot is a template with this slot alone. -/
theorem ofText_eq_of_readAt (h : s.ReadAt ⟨0, t⟩) (hraw : s.raw = t) :
    ofText t = ⟨[], [(s, [])]⟩ := by
  have hnone := containing?_codeRegions_zero h.head?_rest
  cases t with
  | nil =>
      have hhead := h.head?_rest
      simp at hhead
  | cons first more =>
      have hpiece : Piece.ofCursor (codeRegions (first :: more)) ⟨0, first :: more⟩ first more =
          .slot s := (Piece.ofCursor_eq_slot_iff rfl).mpr ⟨hnone, h⟩
      rw [ofText, pieces_eq_singleton hpiece hraw]
      rfl

/-- The source of a slot, read as a template, is this slot and nothing else: there is the same
content, and no literal text around it. -/
theorem ofText_raw (h : s ∈ (ofText t).slots) :
    ofText s.raw = ⟨[], [({ s with start := 0, stop := s.raw.length }, [])]⟩ := by
  obtain ⟨c, -, -, hread⟩ := exists_readAt h
  have hwithin := hread.excerpt (Nat.le_refl _) (Nat.le_refl s.stop)
  have hplace : c.excerpt c.offset s.stop = ⟨0, s.raw⟩ := by
    rw [Cursor.excerpt, Nat.sub_self, hread.raw_eq]
  have hslot : s.excerpt c.offset = { s with start := 0, stop := s.raw.length } := by
    rw [Slot.excerpt, hread.start_eq, Nat.sub_self, hread.length_raw]
  rw [hplace, hslot] at hwithin
  exact ofText_eq_of_readAt hwithin rfl

/-- A nested tag whose quotes close only behind the component.  In the text the tag is given up at
its end, in the source of the component at the quotes, and the component is the same. -/
theorem ofText_raw_quoted :
    let t := text "<A><A b=\"</A> c \x7bx\x7d\""
    let s : Slot := ⟨.component (text "A") [] (some (text "<A b=\"")), text "<A><A b=\"</A>", 0, 13⟩
    let x : Slot := ⟨.expression (text "x"), text "\x7bx\x7d", 16, 19⟩
    (ofText t).slots = [s, x] ∧ ofText (text "<A><A b=\"</A>") = ⟨[], [(s, [])]⟩ ∧
      ofText (text "\x7bx\x7d") = ⟨[], [({ x with start := 0, stop := 3 }, [])]⟩ := by
  intro t s x
  have hslots : (ofText t).slots = [s, x] := by decide +kernel
  have hs : s ∈ (ofText t).slots := by
    rw [hslots]
    exact List.mem_cons_self ..
  have hx : x ∈ (ofText t).slots := by
    rw [hslots]
    exact List.mem_cons_of_mem _ (List.mem_singleton_self x)
  exact ⟨hslots, ofText_raw hs, ofText_raw hx⟩

end Template

end InverseTemplate
