/-
# Blanks that a gap takes whole

A literal is trimmed and split at blanks of every kind, but what stands for a run of blanks in its
anchor takes spaces, tabs and line ends only, where a line end is a line feed with or without a
carriage return in front.  So the words of a text are matched where the text stands exactly if its
blanks are of these kinds (`Text.isLineSpaced`).

Only the whole run will do.  A gap that takes less leaves a blank in front of the next word, and a
word does not begin with a blank.
-/
import InverseTemplate.Proofs.Anchor.Words

namespace InverseTemplate

namespace Text

/-- Is every blank a space, a tab, a line feed, or a carriage return in front of a line feed? -/
def isLineSpaced : Text → Bool
  | [] => true
  | c :: r =>
      (!isBlank c || isHorizontal c || c = '\n' || (c = '\r' && r.head? = some '\n')) &&
        isLineSpaced r

theorem isLineSpaced_append_of_forall {w : Text} (hw : ∀ c ∈ w, isBlank c = false) (t : Text) :
    isLineSpaced (w ++ t) = isLineSpaced t := by
  induction w with
  | nil => rfl
  | cons c r ih =>
      obtain ⟨hc, hr⟩ := List.forall_mem_cons.mp hw
      rw [List.cons_append, isLineSpaced, hc, ih hr]
      simp

theorem isLineSpaced_of_forall {w : Text} (hw : ∀ c ∈ w, isBlank c = false) :
    isLineSpaced w = true := by
  simpa [isLineSpaced] using isLineSpaced_append_of_forall hw []

theorem isLineSpaced_append {r : Text} (hr : r.head? ≠ some '\n') (b : Text) :
    isLineSpaced (b ++ r) = (isLineSpaced b && isLineSpaced r) := by
  induction b with
  | nil => rfl
  | cons c b ih =>
      have hhead : ((b ++ r).head? = some '\n') = (b.head? = some '\n') := by
        cases b with
        | nil => simpa using hr
        | cons d s => rfl
      rw [List.cons_append, isLineSpaced, isLineSpaced, ih, Bool.and_assoc]
      simp only [hhead]

theorem isLineSpaced_of_plainSpacing {t : Text} (h : PlainSpacing t) : isLineSpaced t = true := by
  induction t with
  | nil => rfl
  | cons c r ih =>
      obtain ⟨hc, hr⟩ := List.forall_mem_cons.mp h
      rw [isLineSpaced, ih hr, Bool.and_true]
      cases hblank : isBlank c with
      | false => rfl
      | true => rcases hc hblank with rfl | rfl | rfl <;> rfl

theorem isLineSpaced_iff_horizontal {b : Text} (hb : AllBlank b) (hfeed : '\n' ∉ b) :
    isLineSpaced b = true ↔ Horizontal b := by
  induction b with
  | nil => simp [isLineSpaced, Horizontal]
  | cons c r ih =>
      obtain ⟨hc, hr⟩ := List.forall_mem_cons.mp hb
      obtain ⟨hne, hrest⟩ := not_or.mp (mt List.mem_cons.mpr hfeed)
      have hhead : r.head? ≠ some '\n' := fun h => hrest (List.mem_of_head? h)
      rw [isLineSpaced, Bool.and_eq_true, ih hr hrest]
      simp [hc, Ne.symm hne, hhead, Horizontal]

end Text

/-! ## Runs of blanks -/

theorem horizontalLength_append {h : Text} (hh : Text.Horizontal h) (u : Text) :
    horizontalLength (h ++ u) = h.length + horizontalLength u := by
  unfold horizontalLength
  rw [List.takeWhile_append_of_pos hh, List.length_append]

theorem horizontalLength_cons_eq_zero {c : Char} (hc : Text.isHorizontal c = false) (u : Text) :
    horizontalLength (c :: u) = 0 := by
  unfold horizontalLength
  rw [List.takeWhile_cons_of_neg (by simp [hc]), List.length_nil]

theorem horizontalLength_cons {c : Char} (hc : Text.isHorizontal c = true) (u : Text) :
    horizontalLength (c :: u) = horizontalLength u + 1 := by
  unfold horizontalLength
  rw [List.takeWhile_cons_of_pos hc, List.length_cons]

theorem horizontal_of_le_horizontalLength {b u : Text}
    (h : b.length ≤ horizontalLength (b ++ u)) : Text.Horizontal b := by
  induction b with
  | nil => simp [Text.Horizontal]
  | cons c r ih =>
      rw [List.cons_append, List.length_cons] at h
      cases hc : Text.isHorizontal c with
      | false =>
          rw [horizontalLength_cons_eq_zero hc] at h
          omega
      | true =>
          rw [horizontalLength_cons hc] at h
          exact List.forall_mem_cons.mpr ⟨hc, ih (by omega)⟩

theorem isHorizontal_eq_false {c : Char} (hc : Text.isBlank c = false) :
    Text.isHorizontal c = false := by
  cases h : Text.isHorizontal c with
  | false => rfl
  | true =>
      rw [Text.isBlank_of_isHorizontal h] at hc
      exact absurd hc (by simp)

/-- How many spaces, tabs and line ends the text begins with. -/
def spacingLength (t : Text) : Nat :=
  horizontalLength t + repeated indentedLineFeed? (t.drop (horizontalLength t))

theorem spacingLength_cons {c : Char} (hc : Text.isHorizontal c = true) (u : Text) :
    spacingLength (c :: u) = spacingLength u + 1 := by
  unfold spacingLength
  rw [horizontalLength_cons hc, List.drop_succ_cons]
  omega

theorem spacingLength_of_lineFeed? {c : Char} {u : Text} {n : Nat}
    (hc : Text.isHorizontal c = false) (hfeed : lineFeed? (c :: u) = some n) :
    spacingLength (c :: u) = n + spacingLength ((c :: u).drop n) := by
  have hunit : indentedLineFeed? (c :: u) =
      some (n + horizontalLength ((c :: u).drop n)) := by
    rw [indentedLineFeed?, hfeed, Option.map_some]
  obtain ⟨⟨hlen, -⟩, hpos⟩ := blankFor_of_indentedLineFeed? hunit
  unfold spacingLength
  rw [horizontalLength_cons_eq_zero hc, List.drop_zero, repeated_eq_add hunit hpos hlen,
    List.drop_drop]
  omega

theorem spacingLength_eq_zero {c : Char} {u : Text} (hc : Text.isHorizontal c = false)
    (hfeed : lineFeed? (c :: u) = none) : spacingLength (c :: u) = 0 := by
  have hunit : indentedLineFeed? (c :: u) = none := by
    rw [indentedLineFeed?, hfeed, Option.map_none]
  unfold spacingLength
  rw [horizontalLength_cons_eq_zero hc, List.drop_zero, repeated_eq_zero hunit]

theorem lineFeed?_eq_none {c : Char} {u : Text} (hfeed : c ≠ '\n')
    (hreturn : c = '\r' → u.head? ≠ some '\n') : lineFeed? (c :: u) = none := by
  unfold lineFeed?
  split
  · next heq => exact absurd (List.cons.inj heq).1 hfeed
  · next heq =>
      obtain ⟨rfl, rfl⟩ := List.cons.inj heq
      exact absurd rfl (hreturn rfl)
  · rfl

/-- Blanks in front of a word are taken whole exactly if they are of the right kinds. -/
theorem spacingLength_append_eq_iff {b u : Text} {c : Char} (hb : Text.AllBlank b)
    (hc : Text.isBlank c = false) :
    spacingLength (b ++ c :: u) = b.length ↔ Text.isLineSpaced b = true := by
  have hhead (s : Text) : (s ++ c :: u).head? = some '\n' ↔ s.head? = some '\n' := by
    cases s with
    | nil => simpa using fun h : c = '\n' => absurd (h ▸ hc) (by decide)
    | cons d s => rfl
  induction b with
  | nil =>
      have hne : ∀ d, Text.isBlank d = true → c ≠ d := by
        rintro d hd rfl
        rw [hd] at hc
        exact absurd hc (by simp)
      have hzero := spacingLength_eq_zero (u := u) (isHorizontal_eq_false hc)
        (lineFeed?_eq_none (hne '\n' rfl) fun h => absurd h (hne '\r' rfl))
      simp [hzero, Text.isLineSpaced]
  | cons d s ih =>
      obtain ⟨hd, hs⟩ := List.forall_mem_cons.mp hb
      rw [List.cons_append, Text.isLineSpaced, Bool.and_eq_true, List.length_cons]
      cases hh : Text.isHorizontal d with
      | true =>
          rw [spacingLength_cons hh, Nat.add_right_cancel_iff]
          simpa using ih hs
      | false =>
          by_cases hfeed : d = '\n'
          · subst hfeed
            rw [spacingLength_of_lineFeed? hh rfl, List.drop_one, List.tail_cons, Nat.add_comm,
              Nat.add_right_cancel_iff]
            simpa using ih hs
          · by_cases hreturn : d = '\r' ∧ s.head? = some '\n'
            · obtain ⟨rfl, hnext⟩ := hreturn
              obtain ⟨r, rfl⟩ : ∃ r, s = '\n' :: r := List.head?_eq_some_iff.mp hnext
              -- both characters of the line end are counted at once
              have hline := spacingLength_of_lineFeed? (u := r ++ c :: u) (c := '\n') rfl rfl
              rw [List.drop_one, List.tail_cons] at hline
              have hboth := ih hs
              rw [List.cons_append, hline, List.length_cons] at hboth
              rw [List.cons_append, spacingLength_of_lineFeed? rfl rfl]
              simp only [List.drop_succ_cons, List.drop_zero, List.length_cons, List.head?_cons]
              simp only [decide_true, Bool.and_self, Bool.or_true, true_and, ← hboth]
              omega
            · have hzero := spacingLength_eq_zero hh
                (lineFeed?_eq_none (u := s ++ c :: u) hfeed
                  fun hd' h => hreturn ⟨hd', (hhead s).mp h⟩)
              have hkind : (!Text.isBlank d || false || decide (d = '\n') ||
                  (decide (d = '\r') && decide (s.head? = some '\n'))) = false := by
                rw [← Bool.decide_and]
                simp [hd, hfeed, hreturn]
              rw [hzero, hkind]
              simp

/-! ## The words of a text -/

namespace AnchorPiece

/-- The piece that blanks make takes them whole, in front of a word, exactly if they are of the
right kinds. -/
theorem length?_ofBlanks_iff {b u : Text} {c : Char} (hb : Text.AllBlank b) (hne : b ≠ [])
    (hc : Text.isBlank c = false) :
    (ofBlanks b).length? (b ++ c :: u) = some b.length ↔ Text.isLineSpaced b = true := by
  have hpos : 0 < b.length := List.length_pos_iff.mpr hne
  unfold ofBlanks
  by_cases hfeed : '\n' ∈ b
  · rw [if_pos (by simpa using hfeed), ← spacingLength_append_eq_iff (u := u) hb hc]
    simp only [length?, spacingLength]
    split
    · next hzero =>
        rw [hzero, Nat.add_zero]
        refine ⟨by simp, fun hall => ?_⟩
        exact absurd hfeed (horizontal_of_le_horizontalLength (Nat.le_of_eq hall.symm)).not_mem
    · rw [Option.some.injEq]
  · rw [if_neg (by simpa using hfeed), Text.isLineSpaced_iff_horizontal hb hfeed]
    simp only [length?, Gap.length?]
    constructor
    · intro h
      split at h
      · simp at h
      · exact horizontal_of_le_horizontalLength (Nat.le_of_eq (Option.some.inj h).symm)
    · intro hh
      rw [horizontalLength_append hh, horizontalLength_cons_eq_zero (isHorizontal_eq_false hc),
        Nat.add_zero, if_neg (by omega)]

theorem head?_of_lengthAll? {w v : Text} {n : Nat} (hw : Text.WordRow w)
    (h : lengthAll? (ofText w) v = some n) : v.head? = w.head? := by
  cases hw with
  | word hw =>
      rw [ofText_solid hw] at h
      obtain ⟨_, _, hx, -, -⟩ := lengthAll?_cons h
      obtain ⟨s, rfl⟩ := (length?_word hx).1
      obtain ⟨c, r, rfl, -, -⟩ := hw.exists_cons
      rfl
  | gap hw hb hblank hrest =>
      rw [ofText_append hw hb hblank hrest] at h
      obtain ⟨_, _, hx, -, -⟩ := lengthAll?_cons h
      obtain ⟨s, rfl⟩ := (length?_word hx).1
      obtain ⟨c, r, rfl, -, -⟩ := hw.exists_cons
      rfl

theorem eq_length_of_lengthAll? {w b u : Text} {z n : Nat} (hw : Text.WordRow w)
    (hb : Text.AllBlank b) (hz : (b ++ (w ++ u)).BlankFor z)
    (h : lengthAll? (ofText w) ((b ++ (w ++ u)).drop z) = some n) : z = b.length := by
  obtain ⟨c, r, rfl, hc⟩ := hw.exists_cons
  have hle : z ≤ b.length := by
    have := Text.add_le_of_forall_take (a := 0) (k := b.length) hz.2 (by simp) hc (Nat.zero_le _)
    omega
  by_cases hlt : z < b.length
  · have hhead := head?_of_lengthAll? hw h
    rw [List.head?_drop, List.getElem?_append_left hlt, List.getElem?_eq_getElem hlt,
      List.head?_cons, Option.some.injEq] at hhead
    rw [← hhead, hb _ (List.getElem_mem hlt)] at hc
    exact absurd hc (by simp)
  · omega

/-- The words of a text are matched where the text stands exactly if its blanks are of the right
kinds, and then the text is what they take. -/
theorem lengthAll?_ofText_iff {w : Text} (hw : Text.WordRow w) (u : Text) {n : Nat} :
    lengthAll? (ofText w) (w ++ u) = some n ↔ Text.isLineSpaced w = true ∧ n = w.length := by
  induction hw generalizing n with
  | @word w hw =>
      rw [ofText_solid hw, lengthAll?, length?, if_pos (by simp)]
      simp [lengthAll?, Text.isLineSpaced_of_forall hw.2, eq_comm]
  | @gap w b rest hw hb hblank hrest ih =>
      obtain ⟨c, r, hcons, hc⟩ := hrest.exists_cons
      have hhead : rest.head? ≠ some '\n' := by
        rw [hcons, List.head?_cons, ne_eq, Option.some.injEq]
        rintro rfl
        exact absurd hc (by decide)
      have hword : (AnchorPiece.word w).length? (w ++ (b ++ (rest ++ u))) = some w.length := by
        rw [length?, if_pos (by simp)]
      have hgap := @length?_ofBlanks_iff b (r ++ u) c hblank hb hc
      rw [← List.cons_append, ← hcons] at hgap
      rw [ofText_append hw hb hblank hrest, Text.isLineSpaced_append_of_forall hw.2,
        Text.isLineSpaced_append hhead, Bool.and_eq_true, ← hgap, List.append_assoc,
        List.append_assoc]
      constructor
      · intro h
        obtain ⟨x, y, hx, hy, rfl⟩ := lengthAll?_cons h
        obtain rfl : x = w.length := Option.some.inj (hx.symm.trans hword)
        rw [List.drop_left] at hy
        obtain ⟨z, k, hz, hk, rfl⟩ := lengthAll?_cons hy
        obtain rfl := eq_length_of_lengthAll? hrest hblank (blankFor_of_length?_ofBlanks hz).1 hk
        rw [List.drop_left] at hk
        obtain ⟨hspaced, rfl⟩ := ih.mp hk
        exact ⟨⟨hz, hspaced⟩, by simp⟩
      · rintro ⟨⟨hz, hk⟩, rfl⟩
        rw [lengthAll?, hword]
        dsimp only
        rw [List.drop_left, lengthAll?, hz]
        dsimp only
        rw [List.drop_left, (ih (n := rest.length)).mpr ⟨hk, rfl⟩]
        simp

end AnchorPiece

end InverseTemplate
