/-
# The literals that an anchor finds

An anchor is made from a literal, and one expects it to match where the literal stands.  It does so
for literals whose blanks are spaces, tabs and line feeds.  But blanks are of many more kinds, and
while all of them are trimmed and split at, not all of them are matched, so there are literals whose
own anchor does not find them: those with a no-break space between two words, for example.

`Legible` says which literals are found.  It asks nothing of the blanks outside of the lines that
the words stand in, and of the blanks next to a word of the same line it asks that they be plain
enough.  What stands around a literal has no say for a text; the end of a paragraph may be found
with blanks that follow the literal, so a gap counts as found if it is found by itself.
-/
import InverseTemplate.Proofs.Anchor.Literal

namespace InverseTemplate

/-! ## Empty lines -/

/-- Behind a line feed of the text there is nothing but spaces and tabs up to the next line end. -/
def Text.HasEmptyLine (t : Text) : Prop :=
  ∃ a h r, Text.Horizontal h ∧
    (t = a ++ '\n' :: (h ++ '\n' :: r) ∨ t = a ++ '\n' :: (h ++ '\r' :: '\n' :: r))

theorem isSome_blankLine?_iff {t : Text} :
    (blankLine? t).isSome = true ↔
      ∃ h r, Text.Horizontal h ∧ (t = h ++ '\n' :: r ∨ t = h ++ '\r' :: '\n' :: r) := by
  constructor
  · intro hsome
    obtain ⟨n, hn⟩ := Option.isSome_iff_exists.mp hsome
    rw [blankLine?, Option.map_eq_some_iff] at hn
    obtain ⟨l, hl, -⟩ := hn
    have hcut := (List.take_append_drop (horizontalLength t) t).symm
    have hhorizontal : Text.Horizontal (t.take (horizontalLength t)) := by
      intro c hc
      rw [horizontalLength, take_length_takeWhile] at hc
      exact List.mem_takeWhile_imp hc
    unfold lineFeed? at hl
    split at hl
    · next r heq =>
        rw [heq] at hcut
        exact ⟨_, r, hhorizontal, .inl hcut⟩
    · next r heq =>
        rw [heq] at hcut
        exact ⟨_, r, hhorizontal, .inr hcut⟩
    · simp at hl
  · rintro ⟨h, r, hh, rfl | rfl⟩
    · rw [blankLine?_append hh]
      rfl
    · rw [blankLine?, horizontalLength_append hh, horizontalLength_cons_eq_zero rfl, Nat.add_zero,
        List.drop_left]
      rfl

theorem hasEmptyLine_iff {t : Text} :
    Text.HasEmptyLine t ↔ ∃ a r, t = a ++ '\n' :: r ∧ (blankLine? r).isSome = true := by
  constructor
  · rintro ⟨a, h, r, hh, rfl | rfl⟩
    · exact ⟨a, _, rfl, isSome_blankLine?_iff.mpr ⟨h, r, hh, .inl rfl⟩⟩
    · exact ⟨a, _, rfl, isSome_blankLine?_iff.mpr ⟨h, r, hh, .inr rfl⟩⟩
  · rintro ⟨a, s, rfl, hsome⟩
    obtain ⟨h, r, hh, rfl | rfl⟩ := isSome_blankLine?_iff.mp hsome
    · exact ⟨a, h, r, hh, .inl rfl⟩
    · exact ⟨a, h, r, hh, .inr rfl⟩

theorem isSome_blankLine?_append {t : Text} (hsome : (blankLine? t).isSome = true) (u : Text) :
    (blankLine? (t ++ u)).isSome = true := by
  obtain ⟨h, r, hh, rfl | rfl⟩ := isSome_blankLine?_iff.mp hsome
  · exact isSome_blankLine?_iff.mpr ⟨h, r ++ u, hh, .inl (by simp)⟩
  · exact isSome_blankLine?_iff.mpr ⟨h, r ++ u, hh, .inr (by simp)⟩

theorem blankLine?_cons_feed (u : Text) : blankLine? ('\n' :: u) = some 1 :=
  blankLine?_append (h := []) (by simp [Text.Horizontal]) u

namespace Anchor

/-- Between two texts the literal's anchor matches at a place of the literal, and if the literal is
not blank, it takes all of its words there and nothing outside of the literal. -/
def Recognizes (literal p q : Text) : Prop :=
  ∃ m, (ofLiteral literal).matcher? = some m ∧ ∃ hit : Span, m.Hits (p ++ (literal ++ q)) hit ∧
    p.length ≤ hit.start ∧ hit.start < p.length + literal.length ∧
    (Text.strip literal ≠ [] →
      hit.start ≤ p.length + (Text.leadingBlanks literal).length ∧
      p.length + (Text.leadingBlanks literal).length + (Text.strip literal).length ≤ hit.stop ∧
      hit.stop ≤ p.length + literal.length)

/-- Are the blanks of the literal such that an anchor can match them?  Between words they have to
be plain, and on the words' side of a line feed too.  Blanks alone need a space or a tab, and
where there are several line feeds an empty line. -/
def Legible (literal : Text) : Prop :=
  if Text.strip literal = [] then
    if '\n' ∈ literal then literal.count '\n' = 1 ∨ Text.HasEmptyLine literal
    else ∃ c ∈ literal, Text.isHorizontal c = true
  else
    (∃ outer inner, Text.LeadSplit (Text.leadingBlanks literal) outer inner) ∧
      Text.isLineSpaced (Text.strip literal) = true ∧
      ∃ inner outer, Text.TailSplit (Text.trailingBlanks literal) inner outer

variable {literal : Text}

/-! ## Gaps -/

theorem recognizes_gap_iff {g : Gap} (h : ofLiteral literal = .gap g) (p q : Text) :
    Recognizes literal p q ↔
      ∃ a r, literal = a ++ r ∧ r ≠ [] ∧ (g.length? (r ++ q)).isSome = true := by
  unfold Recognizes
  rw [h]
  constructor
  · rintro ⟨m, hm, hit, hhit, hfrom, hto, -⟩
    obtain rfl : g.matcher = m := Option.some.inj hm
    obtain ⟨k, hk⟩ : ∃ k, hit.start = p.length + k := ⟨hit.start - p.length, by omega⟩
    have htakes : g.length? ((p ++ (literal ++ q)).drop hit.start) = some (hit.stop - hit.start) :=
      hhit.takes
    rw [hk, ← List.drop_drop, List.drop_left, List.drop_append_of_le_length (by omega)] at htakes
    refine ⟨literal.take k, literal.drop k, (List.take_append_drop k literal).symm, ?_, ?_⟩
    · rw [ne_eq, List.drop_eq_nil_iff]
      omega
    · rw [htakes]
      rfl
  · rintro ⟨a, r, rfl, hr, hsome⟩
    obtain ⟨n, hn⟩ := Option.isSome_iff_exists.mp hsome
    have hpos : 0 < r.length := List.length_pos_iff.mpr hr
    refine ⟨g.matcher, rfl, ⟨(p ++ a).length, (p ++ a).length + n⟩, ⟨by simp, ?_, ?_⟩, ?_, ?_, ?_⟩
    · simp
    · rw [Nat.add_sub_cancel_left, List.append_assoc, ← List.append_assoc, Matcher.lengthAt?_append]
      exact hn
    · simp
    · simp only [List.length_append]
      omega
    · exact fun hne => absurd ((Text.strip_eq_nil_iff _).mpr (ofLiteral_eq_gap_iff.mp h).2.1) hne

theorem recognizes_spaces_iff (h : ofLiteral literal = .gap .spaces) (p q : Text) :
    Recognizes literal p q ↔ ∃ c ∈ literal, Text.isHorizontal c = true := by
  rw [recognizes_gap_iff h]
  constructor
  · rintro ⟨a, r, rfl, hr, hsome⟩
    cases r with
    | nil => exact absurd rfl hr
    | cons c r =>
        refine ⟨c, by simp, ?_⟩
        cases hc : Text.isHorizontal c with
        | true => rfl
        | false =>
            simp only [Gap.length?] at hsome
            rw [List.cons_append, horizontalLength_cons_eq_zero hc] at hsome
            simp at hsome
  · rintro ⟨c, hmem, hc⟩
    obtain ⟨a, r, rfl⟩ := List.append_of_mem hmem
    refine ⟨a, c :: r, rfl, by simp, ?_⟩
    simp only [Gap.length?]
    rw [List.cons_append, horizontalLength_cons hc]
    simp

theorem recognizes_line (h : ofLiteral literal = .gap .line) (hfeed : '\n' ∈ literal) (p q : Text) :
    Recognizes literal p q := by
  obtain ⟨a, r, rfl⟩ := List.append_of_mem hfeed
  exact (recognizes_gap_iff h p q).mpr
    ⟨a, '\n' :: r, rfl, by simp, by simp [Gap.length?, blankLine?_cons_feed]⟩

theorem recognizes_paragraph_iff (h : ofLiteral literal = .gap .paragraph) :
    (∀ p q, Recognizes literal p q) ↔ Text.HasEmptyLine literal := by
  simp only [recognizes_gap_iff h, hasEmptyLine_iff]
  constructor
  · intro hall
    obtain ⟨a, r, rfl, -, hsome⟩ := hall [] []
    rw [List.append_nil] at hsome
    simp only [Gap.length?] at hsome
    split at hsome
    · next n hn =>
        obtain ⟨b, hb⟩ := take_of_blankLine? hn
        have hcut : r = (b ++ ['\n']) ++ r.drop n := by rw [← hb, List.take_append_drop]
        refine ⟨a ++ b, r.drop n, ?_, ?_⟩
        · conv => lhs; rw [hcut]
          simp
        · cases hmore : blankLine? (r.drop n) with
          | none => simp [repeated_eq_zero hmore] at hsome
          | some k => rfl
    · simp at hsome
  · rintro ⟨a, r, rfl, hsome⟩ p q
    obtain ⟨n, hnext⟩ := Option.isSome_iff_exists.mp (isSome_blankLine?_append hsome q)
    obtain ⟨⟨hlen, -⟩, hpos⟩ := blankFor_of_blankLine? hnext
    refine ⟨a, '\n' :: r, rfl, by simp, ?_⟩
    simp only [Gap.length?]
    rw [List.cons_append, blankLine?_cons_feed]
    dsimp only
    rw [List.drop_one, List.tail_cons, repeated_eq_add hnext hpos hlen, if_neg (by omega)]
    rfl

/-! ## Texts -/

theorem recognizes_of_splits {a : TextAnchor} (h : ofLiteral literal = .text a)
    {outer inner tail rest : Text}
    (hs : Text.LeadSplit (Text.leadingBlanks literal) outer inner)
    (hspaced : Text.isLineSpaced (Text.strip literal) = true)
    (ht : Text.TailSplit (Text.trailingBlanks literal) tail rest) (p q : Text) :
    Recognizes literal p q := by
  have hne := (ofLiteral_eq_text_iff.mp h).1
  have hparts := TextAnchor.parts_literal h hspaced hs ht p q
  have hlen : (Text.leadingBlanks literal).length + ((Text.strip literal).length +
      (Text.trailingBlanks literal).length) = literal.length := by
    conv => rhs; rw [← Text.leadingBlanks_append_strip_append_trailingBlanks hne]
    simp only [List.length_append]
  have hpos : 0 < (Text.strip literal).length := List.length_pos_iff.mpr hne
  have hlead : (Text.leadingBlanks literal).length = outer.length + inner.length := by
    rw [hs.eq_append, List.length_append]
  have htail : (Text.trailingBlanks literal).length = tail.length + rest.length := by
    rw [ht.eq_append, List.length_append]
  unfold Recognizes
  rw [h]
  refine ⟨a.matcher, rfl,
    ⟨(p ++ outer).length, (p ++ outer).length +
      (inner.length + (Text.strip literal).length + tail.length)⟩, ⟨by simp, ?_, ?_⟩, ?_, ?_, ?_⟩
  · simp only [List.length_append]
    omega
  · rw [Nat.add_sub_cancel_left]
    exact TextAnchor.lengthAt?_matcher_eq_some_iff.mpr ⟨_, _, _, hparts, rfl⟩
  · simp
  · simp only [List.length_append]
    omega
  · intro _
    simp only [List.length_append]
    omega

theorem splits_of_parts {a : TextAnchor} (h : ofLiteral literal = .text a) {p q : Text}
    {k lead body tail : Nat} (hk : k ≤ (Text.leadingBlanks literal).length)
    (hparts : a.Parts (p ++ (literal ++ q)) (p.length + k) lead body tail) :
    (∃ outer inner, Text.LeadSplit (Text.leadingBlanks literal) outer inner) ∧
      Text.isLineSpaced (Text.strip literal) = true ∧
      ∃ inner outer, Text.TailSplit (Text.trailingBlanks literal) inner outer := by
  obtain ⟨hne, rfl⟩ := ofLiteral_eq_text_iff.mp h
  have hrow := Text.wordRow_strip hne
  have hblanks := Text.allBlank_leadingBlanks literal
  obtain ⟨hbefore, hwords, hafter⟩ := hparts
  have ht : p ++ (literal ++ q) = p ++ (Text.leadingBlanks literal ++
      (Text.strip literal ++ (Text.trailingBlanks literal ++ q))) := by
    conv => lhs; rw [← Text.leadingBlanks_append_strip_append_trailingBlanks hne]
    simp only [List.append_assoc]
  generalize Text.leadingBlanks literal = blanks at *
  generalize Text.strip literal = words at *
  generalize Text.trailingBlanks literal = trail at *
  rw [ht, ← List.drop_drop, List.drop_left] at hbefore
  rw [ht, Nat.add_assoc, ← List.drop_drop, List.drop_left] at hwords
  -- the guard in front takes what is left of the blanks, so the words are met where they stand
  have hblank : (blanks ++ (words ++ (trail ++ q))).BlankFor (k + lead) := by
    refine Text.BlankFor.add ⟨?_, ?_⟩ (Guard.blankFor_of_before? hbefore)
    · simp only [List.length_append]
      omega
    · rw [List.take_append_of_le_length (by omega)]
      exact fun c hc => hblanks c (List.mem_of_mem_take hc)
  have hmeet := AnchorPiece.eq_length_of_lengthAll? hrow hblanks hblank hwords
  rw [hmeet, List.drop_left] at hwords
  obtain ⟨hspaced, rfl⟩ := (AnchorPiece.lengthAll?_ofText_iff hrow _).mp hwords
  rw [ht, Nat.add_assoc p.length, hmeet, Nat.add_assoc, ← List.drop_drop, List.drop_left,
    ← List.drop_drop, List.drop_left, List.drop_left] at hafter
  exact ⟨⟨_, _, Guard.leadSplit_of_before? hmeet hbefore⟩, hspaced,
    Guard.exists_tailSplit_of_after? hafter⟩

theorem recognizes_text_iff {a : TextAnchor} (h : ofLiteral literal = .text a) (p q : Text) :
    Recognizes literal p q ↔ Legible literal := by
  have hne := (ofLiteral_eq_text_iff.mp h).1
  unfold Legible
  rw [if_neg hne]
  constructor
  · rintro ⟨m, hm, hit, hhit, hfrom, -, hspan⟩
    rw [h] at hm
    obtain rfl : a.matcher = m := Option.some.inj hm
    obtain ⟨hstart, -, -⟩ := hspan hne
    obtain ⟨lead, body, tail, hparts, -⟩ := TextAnchor.lengthAt?_matcher_eq_some_iff.mp hhit.takes
    obtain ⟨k, hk⟩ : ∃ k, hit.start = p.length + k := ⟨hit.start - p.length, by omega⟩
    rw [hk] at hparts hstart
    exact splits_of_parts h (by omega) hparts
  · rintro ⟨⟨outer, inner, hs⟩, hspaced, tail, rest, ht⟩
    exact recognizes_of_splits h hs hspaced ht p q

/-! ## Literals -/

theorem recognizes_gap_iff_legible {g : Gap} (h : ofLiteral literal = .gap g) :
    (∀ p q, Recognizes literal p q) ↔ Legible literal := by
  obtain ⟨-, hblank, hg⟩ := ofLiteral_eq_gap_iff.mp h
  unfold Legible
  rw [if_pos ((Text.strip_eq_nil_iff _).mpr hblank)]
  unfold Gap.ofBlanks at hg
  split at hg
  · next hcount =>
      subst hg
      rw [if_neg (List.count_eq_zero.mp hcount)]
      exact ⟨fun hall => (recognizes_spaces_iff h [] []).mp (hall [] []),
        fun hspaces p q => (recognizes_spaces_iff h p q).mpr hspaces⟩
  · next hcount =>
      subst hg
      have hfeed : '\n' ∈ literal := List.count_pos_iff.mp (by omega)
      rw [if_pos hfeed]
      exact ⟨fun _ => .inl hcount, fun _ => recognizes_line h hfeed⟩
  · next hzero hone =>
      subst hg
      have hfeed : '\n' ∈ literal := List.count_pos_iff.mp (Nat.pos_of_ne_zero hzero)
      rw [if_pos hfeed, recognizes_paragraph_iff h]
      exact ⟨.inr, fun hor => hor.resolve_left hone⟩

/-- A literal's anchor finds it between all texts exactly if it is legible.  A literal that is not
blank is found between any two texts exactly if it is found between all. -/
theorem recognizes_iff_legible (literal : Text) :
    ((∀ p q, Recognizes literal p q) ↔ Legible literal) ∧
      (Text.strip literal ≠ [] → ∀ p q, Recognizes literal p q ↔ Legible literal) := by
  cases h : ofLiteral literal with
  | empty =>
      obtain rfl := ofLiteral_eq_empty_iff.mp h
      have hno : ¬ Recognizes [] [] [] := by
        rintro ⟨m, hm, -⟩
        simp [h, matcher?] at hm
      refine ⟨⟨fun hall => absurd (hall [] []) hno, fun hlegible => ?_⟩, fun hne => absurd rfl hne⟩
      obtain ⟨c, hc, -⟩ : ∃ c ∈ ([] : Text), Text.isHorizontal c = true := hlegible
      exact absurd hc List.not_mem_nil
  | gap g =>
      refine ⟨recognizes_gap_iff_legible h, fun hne => ?_⟩
      exact absurd ((Text.strip_eq_nil_iff _).mpr (ofLiteral_eq_gap_iff.mp h).2.1) hne
  | text a =>
      have hiff := recognizes_text_iff h
      exact ⟨⟨fun hall => (hiff [] []).mp (hall [] []), fun hlegible p q =>
        (hiff p q).mpr hlegible⟩, fun _ => hiff⟩

/-- Two words with a no-break space between them are not found, whether or not there is a line feed
too. -/
theorem not_recognizes_noBreakSpace :
    ¬ Recognizes (InverseTemplate.text "a\n\u00a0b") [] [] ∧
      ¬ Recognizes (InverseTemplate.text "a\u00a0b") [] [] := by
  refine ⟨fun h => ?_, fun h => ?_⟩
  · obtain ⟨-, hspaced, -⟩ := (recognizes_text_iff rfl [] []).mp h
    exact absurd hspaced (by decide)
  · obtain ⟨-, hspaced, -⟩ := (recognizes_text_iff rfl [] []).mp h
    exact absurd hspaced (by decide)

end Anchor

end InverseTemplate
