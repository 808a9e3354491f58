/-
# What a hit takes

An anchor is made of a literal, and what it takes from a text is made of the same characters: the
words of the literal as they are, and blanks of any kind for its blanks.  So a hit lies within the
text (`Anchor.stop_le_length`) and reaches past no character that is neither blank nor in the
literal (`Anchor.blank_or_mem_of_hits`).

With blocks of code in the text, what a search answers with is still a hit ahead of its origin
(`searchOutside_sound`).
-/
import InverseTemplate.Proofs.Anchor.Leftmost
import InverseTemplate.Proofs.Anchor.Words

namespace InverseTemplate

/-- The text begins with `n` characters, or more, and the first `n` of them are blank or occur in
the literal. -/
def Text.WithinFor (literal t : Text) (n : Nat) : Prop :=
  n ≤ t.length ∧ ∀ c ∈ t.take n, Text.isBlank c = true ∨ c ∈ literal

namespace Text

variable {literal t : Text}

theorem WithinFor.add {a b : Nat} (ha : WithinFor literal t a)
    (hb : WithinFor literal (t.drop a) b) :
    WithinFor literal t (a + b) := by
  refine ⟨?_, ?_⟩
  · have h1 := ha.1
    have h2 := hb.1
    rw [List.length_drop] at h2
    omega
  · rw [List.take_add]
    exact List.forall_mem_append.mpr ⟨ha.2, hb.2⟩

theorem BlankFor.withinFor {n : Nat} (h : t.BlankFor n) : WithinFor literal t n :=
  ⟨h.1, fun c hc => .inl (h.2 c hc)⟩

theorem withinFor_of_isPrefix {w : Text} (hw : ∀ c ∈ w, c ∈ literal) (h : w <+: t) :
    WithinFor literal t w.length := by
  refine ⟨h.length_le, fun c hc => .inr (hw c ?_)⟩
  rwa [← List.prefix_iff_eq_take.mp h] at hc

end Text

namespace AnchorPiece

theorem mem_of_mem_ofText {t w : Text} (h : .word w ∈ ofText t) : ∀ c ∈ w, c ∈ t := by
  fun_induction ofText t with
  | case1 => simp at h
  | case2 c r _ ih =>
      intro d hd
      rcases List.mem_cons.mp h with heq | hmem
      · split at heq <;> simp at heq
      · exact List.mem_cons_of_mem _ ((List.dropWhile_sublist _).subset (ih hmem d hd))
  | case3 c r _ ih =>
      intro d hd
      rcases List.mem_cons.mp h with heq | hmem
      · cases heq
        rcases List.mem_cons.mp hd with rfl | hd
        · exact List.mem_cons_self ..
        · exact List.mem_cons_of_mem _ ((List.takeWhile_sublist _).subset hd)
      · exact List.mem_cons_of_mem _ ((List.dropWhile_sublist _).subset (ih hmem d hd))

theorem withinFor_of_length? {literal u : Text} {piece : AnchorPiece} {n : Nat}
    (hpiece : ∀ w, piece = .word w → ∀ c ∈ w, c ∈ literal) (h : piece.length? u = some n) :
    Text.WithinFor literal u n := by
  cases piece with
  | word w =>
      obtain ⟨hw, rfl⟩ := length?_word h
      exact Text.withinFor_of_isPrefix (hpiece w rfl) hw
  | newLines => exact (@blankFor_of_length?_ofBlanks ['\n'] _ _ h).1.withinFor
  | spaces => exact (@blankFor_of_length?_ofBlanks [] _ _ h).1.withinFor

theorem withinFor_of_lengthAll? {literal u : Text} {pieces : List AnchorPiece} {n : Nat}
    (hpieces : ∀ w, .word w ∈ pieces → ∀ c ∈ w, c ∈ literal)
    (h : lengthAll? pieces u = some n) : Text.WithinFor literal u n := by
  induction pieces generalizing u n with
  | nil =>
      cases h
      exact (Text.BlankFor.zero u).withinFor
  | cons piece rest ih =>
      obtain ⟨a, b, ha, hb, rfl⟩ := lengthAll?_cons h
      have hhere : Text.WithinFor literal u a :=
        withinFor_of_length? (fun w hw => hpieces w (hw ▸ List.mem_cons_self ..)) ha
      exact hhere.add (ih (fun w hw => hpieces w (List.mem_cons_of_mem _ hw)) hb)

end AnchorPiece

namespace Anchor

variable {literal t : Text} {m : Matcher} {s : Span}

theorem withinFor_of_text {a : TextAnchor} (ha : ofLiteral literal = .text a)
    (h : a.matcher.Hits t s) : Text.WithinFor literal (t.drop s.start) (s.stop - s.start) := by
  obtain ⟨lead, body, tail, hparts, hn⟩ := TextAnchor.lengthAt?_matcher_eq_some_iff.mp h.takes
  obtain ⟨-, rfl⟩ := ofLiteral_eq_text_iff.mp ha
  have hwords : ∀ w, .word w ∈ AnchorPiece.ofText (Text.strip literal) → ∀ c ∈ w, c ∈ literal :=
    fun w hw c hc => Text.mem_of_mem_strip (AnchorPiece.mem_of_mem_ofText hw c hc)
  have hlead : Text.WithinFor literal (t.drop s.start) lead :=
    (Guard.blankFor_of_before? hparts.lead_eq).withinFor
  have hbody : Text.WithinFor literal (t.drop (s.start + lead)) body :=
    AnchorPiece.withinFor_of_lengthAll? hwords hparts.body_eq
  have htail : Text.WithinFor literal (t.drop (s.start + lead + body)) tail :=
    (Guard.blankFor_of_after? hparts.tail_eq).withinFor
  rw [hn]
  refine (hlead.add ?_).add ?_
  · rwa [List.drop_drop]
  · rwa [List.drop_drop, ← Nat.add_assoc]

/-- A hit of an anchor takes characters of its literal, and blanks. -/
theorem withinFor_of_hits (hm : (ofLiteral literal).matcher? = some m) (h : m.Hits t s) :
    Text.WithinFor literal (t.drop s.start) (s.stop - s.start) := by
  cases hl : ofLiteral literal with
  | empty => simp [hl, matcher?] at hm
  | gap g =>
      rw [hl, matcher?, Option.some.injEq] at hm
      subst hm
      exact (blankFor_of_length? h.takes).1.withinFor
  | text a =>
      rw [hl, matcher?, Option.some.injEq] at hm
      subst hm
      exact withinFor_of_text hl h

theorem stop_le_length (hm : (ofLiteral literal).matcher? = some m) (h : m.Hits t s) :
    s.stop ≤ t.length := by
  have hle := (withinFor_of_hits hm h).1
  have h1 := h.start_le_length
  have h2 := h.start_le_stop
  rw [List.length_drop] at hle
  omega

theorem blank_or_mem_of_hits (hm : (ofLiteral literal).matcher? = some m) (h : m.Hits t s)
    {i : Nat} (h1 : s.start ≤ i) (h2 : i < s.stop) {c : Char} (hc : t[i]? = some c) :
    Text.isBlank c = true ∨ c ∈ literal := by
  refine (withinFor_of_hits hm h).2 c (List.mem_iff_getElem?.mpr ⟨i - s.start, ?_⟩)
  rw [List.getElem?_take, if_pos (by omega), List.getElem?_drop]
  rwa [show s.start + (i - s.start) = i by omega]

/-- A hit of a text ends behind something that is not blank, or else where a line ends. -/
theorem ends_of_hits_text {a : TextAnchor} (ha : ofLiteral literal = .text a)
    (h : a.matcher.Hits t s) :
    (∃ c, t[s.stop - 1]? = some c ∧ Text.isBlank c = false) ∨
      ∀ c, t[s.stop]? = some c → c = '\n' := by
  obtain ⟨lead, body, tail, hparts, hn⟩ := TextAnchor.lengthAt?_matcher_eq_some_iff.mp h.takes
  obtain ⟨hpos, c, hc, hblank⟩ := AnchorPiece.exists_last (wordLed_of_ofLiteral ha) hparts.body_eq
  have hle := h.start_le_stop
  by_cases htail : tail = 0
  · refine .inl ⟨c, ?_, hblank⟩
    rwa [show s.stop - 1 = s.start + lead + body - 1 by omega]
  · right
    have hafter := hparts.tail_eq
    cases hguard : a.after with
    | nothing =>
        rw [hguard] at hafter
        cases hafter
        exact absurd rfl htail
    | wordEdge =>
        rw [hguard, Guard.after?] at hafter
        split at hafter
        · cases hafter
          exact absurd rfl htail
        · simp at hafter
    | lineEdge =>
        rw [hguard, Guard.after?] at hafter
        split at hafter
        · next hend =>
            cases hafter
            intro d hd
            rw [List.drop_drop, List.head?_drop] at hend
            rw [show s.start + lead + body + _ = s.stop by omega, hd] at hend
            simpa using hend
        · simp at hafter

end Anchor

/-! ## Searching around blocks -/

/-- What a search finds is a hit at or behind its origin that is not to be passed over. -/
theorem searchOutside_sound {m : Matcher} {blocks : List Span} {t : Text} {origin : Nat}
    {hit : Span} (h : (searchOutside m blocks t origin).hit = some hit) :
    origin ≤ hit.start ∧ m.Hits t hit ∧ skipTarget? blocks hit.start origin = none :=
  have hcounts := (searchOutside_eq_some_iff.mp h).toCounts
  ⟨hcounts.le_start, hcounts.hits, skipTarget?_eq_none_iff.mpr hcounts.not_passed⟩

end InverseTemplate
