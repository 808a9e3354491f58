/-
# The words of an anchor

The text of an anchor is a row of words with one gap between each two of them (`WordLed`), because
trimming leaves no blank at either end.  A word is matched as it is and a gap takes blanks only, so
two matches of one anchor run through their words in step: what begins later is later at every
word, and ends later.

`Anchor.stop_le_of_start_le` says so for every anchor and for the whole match, guards included.  It
is the exchange step behind a scan that never takes anything back.
-/
import InverseTemplate.Proofs.Anchor.Gap
import InverseTemplate.Proofs.Anchor.Hit
import InverseTemplate.Proofs.Text.WordRow

namespace InverseTemplate

namespace AnchorPiece

/-! ## Words with gaps between them -/

/-- The piece that a run of blanks makes. -/
def ofBlanks (b : Text) : AnchorPiece := if b.contains '\n' then newLines else spaces

/-- Words with a gap between each two of them. -/
inductive WordLed : List AnchorPiece → Prop
  | word {w : Text} : Text.Solid w → WordLed [.word w]
  | gap {w b : Text} {rest : List AnchorPiece} : Text.Solid w → WordLed rest →
      WordLed (.word w :: ofBlanks b :: rest)

theorem ofText_solid {w : Text} (hw : w.Solid) : ofText w = [.word w] := by
  obtain ⟨c, r, rfl, hc, hr⟩ := hw.exists_cons
  have hall : ∀ d ∈ r, (!Text.isBlank d) = true := fun d hd => by simp [hr d hd]
  have htake : (r.takeWhile fun d => !Text.isBlank d) = r := by
    simpa using @List.takeWhile_append_of_pos _ _ r [] hall
  have hdrop : (r.dropWhile fun d => !Text.isBlank d) = [] := by
    simpa using @List.dropWhile_append_of_pos _ _ r [] hall
  rw [ofText, if_neg (by simp [hc]), htake, hdrop, ofText]

theorem ofText_append {w b rest : Text} (hw : w.Solid) (hb : b ≠ []) (hblank : Text.AllBlank b)
    (hrest : Text.WordRow rest) :
    ofText (w ++ (b ++ rest)) = .word w :: ofBlanks b :: ofText rest := by
  obtain ⟨c, r, rfl, hc, hr⟩ := hw.exists_cons
  obtain ⟨e, u, rfl, he⟩ := hrest.exists_cons
  cases b with
  | nil => exact absurd rfl hb
  | cons d s =>
      have hd : Text.isBlank d = true := hblank d (List.mem_cons_self ..)
      have hs : ∀ f ∈ s, Text.isBlank f = true := fun f hf => hblank f (List.mem_cons_of_mem _ hf)
      have hall : ∀ f ∈ r, (!Text.isBlank f) = true := fun f hf => by simp [hr f hf]
      rw [List.cons_append, ofText, if_neg (by simp [hc]), List.takeWhile_append_of_pos hall,
        List.dropWhile_append_of_pos hall, List.cons_append,
        List.takeWhile_cons_of_neg (by simp [hd]), List.dropWhile_cons_of_neg (by simp [hd]),
        List.append_nil, ofText, if_pos hd, List.takeWhile_append_of_pos hs,
        List.dropWhile_append_of_pos hs, List.takeWhile_cons_of_neg (by simp [he]),
        List.dropWhile_cons_of_neg (by simp [he]), List.append_nil]
      rfl

theorem wordLed_ofText {t : Text} (h : Text.WordRow t) : WordLed (ofText t) := by
  induction h with
  | word hw =>
      rw [ofText_solid hw]
      exact .word hw
  | gap hw hb hblank hrest ih =>
      rw [ofText_append hw hb hblank hrest]
      exact .gap hw ih

/-! ## What pieces take -/

theorem length?_word {w u : Text} {n : Nat} (h : (AnchorPiece.word w).length? u = some n) :
    w <+: u ∧ n = w.length := by
  simp only [length?] at h
  split at h
  · next hp =>
      cases h
      exact ⟨List.isPrefixOf_iff_prefix.mp hp, rfl⟩
  · simp at h

theorem blankFor_of_length?_ofBlanks {b u : Text} {n : Nat}
    (h : (ofBlanks b).length? u = some n) : u.BlankFor n ∧ 0 < n := by
  unfold ofBlanks at h
  split at h
  · simp only [length?] at h
    split at h
    · simp at h
    · cases h
      exact ⟨(blankFor_horizontalLength u).add
        (blankFor_repeated (fun _ _ => blankFor_of_indentedLineFeed?) _), by omega⟩
  · exact @blankFor_of_length? .spaces _ _ h

theorem lengthAll?_cons {piece : AnchorPiece} {rest : List AnchorPiece} {u : Text} {n : Nat}
    (h : lengthAll? (piece :: rest) u = some n) :
    ∃ a b, piece.length? u = some a ∧ lengthAll? rest (u.drop a) = some b ∧ n = a + b := by
  rw [lengthAll?] at h
  split at h
  · next a ha =>
      obtain ⟨b, hb, rfl⟩ := Option.map_eq_some_iff.mp h
      exact ⟨a, b, ha, hb, rfl⟩
  · simp at h

theorem exists_last_of_word {w t : Text} {b n : Nat} (hw : w.Solid)
    (h : (AnchorPiece.word w).length? (t.drop b) = some n) :
    0 < n ∧ ∃ c, t[b + n - 1]? = some c ∧ Text.isBlank c = false := by
  obtain ⟨⟨r, hr⟩, rfl⟩ := length?_word h
  have hpos : 0 < w.length := List.length_pos_iff.mpr hw.1
  have hlast : w.length - 1 < w.length := by omega
  refine ⟨hpos, w[w.length - 1], ?_, hw.2 _ (List.getElem_mem _)⟩
  rw [show b + w.length - 1 = b + (w.length - 1) by omega, ← List.getElem?_drop, ← hr,
    List.getElem?_append_left (by omega), List.getElem?_eq_getElem]

theorem exists_last {pieces : List AnchorPiece} (hp : WordLed pieces) {t : Text} {b n : Nat}
    (h : lengthAll? pieces (t.drop b) = some n) :
    0 < n ∧ ∃ c, t[b + n - 1]? = some c ∧ Text.isBlank c = false := by
  induction hp generalizing b n with
  | word hw =>
      obtain ⟨x, y, hx, hy, rfl⟩ := lengthAll?_cons h
      rw [lengthAll?] at hy
      cases hy
      exact exists_last_of_word hw hx
  | gap hw _ ih =>
      obtain ⟨x, y, hx, hy, rfl⟩ := lengthAll?_cons h
      obtain ⟨z, k, hz, hk, rfl⟩ := lengthAll?_cons hy
      rw [List.drop_drop, List.drop_drop] at hk
      obtain ⟨hpos, c, hc, hcb⟩ := ih hk
      refine ⟨by omega, c, ?_, hcb⟩
      rwa [show b + (x + (z + k)) - 1 = b + (x + z) + k - 1 by omega]

theorem add_lt_add_of_lengthAll? {pieces : List AnchorPiece} (hp : WordLed pieces) {t : Text}
    {b b' n n' : Nat} (hlt : b' < b) (h' : lengthAll? pieces (t.drop b') = some n')
    (h : lengthAll? pieces (t.drop b) = some n) : b' + n' < b + n := by
  induction hp generalizing b b' n n' with
  | word hw =>
      obtain ⟨x', y', hx', hy', rfl⟩ := lengthAll?_cons h'
      obtain ⟨x, y, hx, hy, rfl⟩ := lengthAll?_cons h
      rw [lengthAll?] at hy hy'
      cases hy
      cases hy'
      have h1 := (length?_word hx').2
      have h2 := (length?_word hx).2
      omega
  | gap hw _ ih =>
      obtain ⟨x', y', hx', hy', rfl⟩ := lengthAll?_cons h'
      obtain ⟨x, y, hx, hy, rfl⟩ := lengthAll?_cons h
      obtain ⟨z', k', hz', hk', rfl⟩ := lengthAll?_cons hy'
      obtain ⟨z, k, hz, hk, rfl⟩ := lengthAll?_cons hy
      have h1 := (length?_word hx').2
      have h2 := (length?_word hx).2
      -- the earlier gap cannot reach past the last character of the later word
      obtain ⟨hpos, c, hc, hcb⟩ := exists_last_of_word hw hx
      rw [List.drop_drop] at hz'
      have hgap := (blankFor_of_length?_ofBlanks hz').1.2
      have hle := Text.add_le_of_forall_take hgap hc hcb (by omega)
      rw [List.drop_drop, List.drop_drop] at hk' hk
      have := @ih (b + (x + z)) (b' + (x' + z')) k k' (by omega) hk' hk
      omega

end AnchorPiece

/-! ## A text with its guards -/

namespace TextAnchor

/-- How a match of a text at an offset is made up. -/
structure Parts (a : TextAnchor) (t : Text) (offset lead body tail : Nat) : Prop where
  lead_eq : a.before.before? (t.before offset) (t.drop offset) = some lead
  body_eq : AnchorPiece.lengthAll? a.pieces (t.drop (offset + lead)) = some body
  tail_eq : a.after.after? (t.drop (offset + lead + body)) = some tail

theorem lengthAt?_matcher_eq_some_iff {a : TextAnchor} {t : Text} {offset n : Nat} :
    a.matcher.lengthAt? t offset = some n ↔
      ∃ lead body tail, a.Parts t offset lead body tail ∧ n = lead + body + tail := by
  unfold Matcher.lengthAt? matcher
  simp only [Option.bind_eq_bind, Option.bind_eq_some_iff, Option.pure_def, Option.some.injEq,
    List.drop_drop]
  constructor
  · rintro ⟨lead, h1, body, h2, tail, h3, rfl⟩
    exact ⟨lead, body, tail, ⟨h1, h2, by rwa [Nat.add_assoc]⟩, rfl⟩
  · rintro ⟨lead, body, tail, ⟨h1, h2, h3⟩, rfl⟩
    exact ⟨lead, h1, body, h2, tail, by rwa [Nat.add_assoc] at h3, rfl⟩

end TextAnchor

theorem Guard.add_lt_add_of_before? {guard : Guard} {t : Text} {p p' l l' : Nat} (hlt : p' < p)
    (hp : p ≤ t.length) (h' : guard.before? (t.before p') (t.drop p') = some l')
    (h : guard.before? (t.before p) (t.drop p) = some l) : p' + l' < p + l := by
  cases guard with
  | nothing =>
      cases h'
      omega
  | wordEdge =>
      simp only [Guard.before?] at h'
      split at h'
      · cases h'
        omega
      · simp at h'
  | lineEdge =>
      simp only [Guard.before?] at h h'
      split at h'
      · split at h
        · next hline =>
            cases h'
            have hprev : t[p - 1]? = some '\n' := by
              rw [Text.before, if_neg (by omega), List.getElem?_eq_getElem (by omega)] at hline
              rw [List.getElem?_eq_getElem (by omega)]
              simpa [beginsLine] using hline
            have hrun : ∀ d ∈ (t.drop p').take (horizontalLength (t.drop p')),
                Text.isHorizontal d = true := by
              intro d hd
              rw [horizontalLength, take_length_takeWhile] at hd
              exact List.mem_takeWhile_imp hd
            have := Text.add_le_of_forall_take hrun hprev (by decide) (by omega)
            omega
        · simp at h
      · simp at h'

theorem Guard.blankFor_of_before? {guard : Guard} {previous : Option Char} {u : Text} {n : Nat}
    (h : guard.before? previous u = some n) : u.BlankFor n := by
  cases guard with
  | nothing =>
      cases h
      exact Text.BlankFor.zero u
  | wordEdge =>
      simp only [Guard.before?] at h
      split at h
      · cases h
        exact Text.BlankFor.zero u
      · simp at h
  | lineEdge =>
      simp only [Guard.before?] at h
      split at h
      · cases h
        exact blankFor_horizontalLength u
      · simp at h

theorem Guard.blankFor_of_after? {guard : Guard} {u : Text} {n : Nat}
    (h : guard.after? u = some n) : u.BlankFor n := by
  cases guard with
  | nothing =>
      cases h
      exact Text.BlankFor.zero u
  | wordEdge =>
      simp only [Guard.after?] at h
      split at h
      · cases h
        exact Text.BlankFor.zero u
      · simp at h
  | lineEdge =>
      simp only [Guard.after?] at h
      split at h
      · cases h
        refine ⟨length_takeWhile_le _ u, ?_⟩
        intro c hc
        rw [take_length_takeWhile] at hc
        have htail := List.mem_takeWhile_imp hc
        rw [isLineTail, Bool.or_eq_true, decide_eq_true_eq] at htail
        rcases htail with h1 | rfl
        · exact Text.isBlank_of_isHorizontal h1
        · decide
      · simp at h

/-! ## The exchange step -/

namespace Anchor

variable {literal : Text}

theorem ofLiteral_eq_text_iff {a : TextAnchor} :
    ofLiteral literal = .text a ↔
      Text.strip literal ≠ [] ∧
        a = ⟨Text.strip literal, .ofBlanks (Text.leadingBlanks literal),
          AnchorPiece.ofText (Text.strip literal), .ofBlanks (Text.trailingBlanks literal)⟩ := by
  unfold ofLiteral
  by_cases hl : literal = []
  · simp [hl, Text.strip, Text.stripLeft, Text.stripRight]
  · by_cases ht : Text.strip literal = []
    · simp [hl, ht]
    · simp [hl, ht, eq_comm]

theorem ofLiteral_eq_gap_iff {g : Gap} :
    ofLiteral literal = .gap g ↔
      literal ≠ [] ∧ Text.AllBlank literal ∧ g = .ofBlanks literal := by
  rw [← Text.strip_eq_nil_iff]
  unfold ofLiteral
  by_cases hl : literal = []
  · simp [hl]
  · by_cases ht : Text.strip literal = []
    · simp [hl, ht, eq_comm]
    · simp [hl, ht]

theorem ofLiteral_eq_empty_iff : ofLiteral literal = .empty ↔ literal = [] := by
  unfold ofLiteral
  by_cases hl : literal = []
  · simp [hl]
  · by_cases ht : Text.strip literal = [] <;> simp [hl, ht]

theorem wordLed_of_ofLiteral {a : TextAnchor} (h : ofLiteral literal = .text a) :
    AnchorPiece.WordLed a.pieces := by
  obtain ⟨hne, rfl⟩ := ofLiteral_eq_text_iff.mp h
  exact AnchorPiece.wordLed_ofText (Text.wordRow_strip hne)

theorem stop_le_of_start_le_text {a : TextAnchor} (hw : AnchorPiece.WordLed a.pieces) {t : Text}
    {s s' : Span} (h' : a.matcher.Hits t s') (h : a.matcher.Hits t s) (hlt : s'.start < s.start) :
    s'.stop ≤ s.stop := by
  obtain ⟨l', b', e', hp', hn'⟩ := TextAnchor.lengthAt?_matcher_eq_some_iff.mp h'.takes
  obtain ⟨l, b, e, hp, hn⟩ := TextAnchor.lengthAt?_matcher_eq_some_iff.mp h.takes
  have hle := h.start_le_stop
  have hle' := h'.start_le_stop
  have hlead := Guard.add_lt_add_of_before? hlt h.start_le_length hp'.lead_eq hp.lead_eq
  have hbody := AnchorPiece.add_lt_add_of_lengthAll? hw hlead hp'.body_eq hp.body_eq
  -- what the guard behind the earlier match takes ends before the last word of the later one
  obtain ⟨hpos, c, hc, hcb⟩ := AnchorPiece.exists_last hw hp.body_eq
  have htail := (Guard.blankFor_of_after? hp'.tail_eq).2
  have := Text.add_le_of_forall_take htail hc hcb (by omega)
  omega

theorem stop_le_of_start_le_gap {gap : Gap} {t : Text} {s s' : Span} (h' : gap.matcher.Hits t s')
    (h : gap.matcher.Hits t s) (hlt : s'.start < s.start) : s'.stop ≤ s.stop := by
  have hle := h.start_le_stop
  have hle' := h'.start_le_stop
  by_cases hin : s.start < s'.stop
  · have hnext : gap.length? ((t.drop s'.start).drop (s.start - s'.start)) =
        some (s.stop - s.start) := by
      rw [List.drop_drop, show s'.start + (s.start - s'.start) = s.start by omega]
      exact h.takes
    have := Gap.le_add_of_length?_drop h'.takes (by omega) hnext
    omega
  · omega

/-- Of two hits of one anchor the one that begins earlier, or at the same place, does not end
later. -/
theorem stop_le_of_start_le {m : Matcher} (hm : (ofLiteral literal).matcher? = some m) {t : Text}
    {s s' : Span} (h' : m.Hits t s') (h : m.Hits t s) (hle : s'.start ≤ s.start) :
    s'.stop ≤ s.stop := by
  by_cases heq : s'.start = s.start
  · have h1 := h'.takes
    have h2 := h'.start_le_stop
    have h3 := h.start_le_stop
    rw [heq, h.takes, Option.some.injEq] at h1
    omega
  · have hlt : s'.start < s.start := by omega
    cases hl : ofLiteral literal with
    | empty => simp [hl, matcher?] at hm
    | gap g =>
        rw [hl, matcher?, Option.some.injEq] at hm
        subst hm
        exact stop_le_of_start_le_gap h' h hlt
    | text a =>
        rw [hl, matcher?, Option.some.injEq] at hm
        subst hm
        exact stop_le_of_start_le_text (wordLed_of_ofLiteral hl) h' h hlt

end Anchor

end InverseTemplate
