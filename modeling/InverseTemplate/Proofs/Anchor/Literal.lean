/-
# An anchor finds its own literal

A literal whose blanks are spaces, tabs and line feeds is matched where it stands: its anchor takes
the words as they are, each gap between them whole, and of the blanks around them as much as its
guards ask for.  This is not obvious, because a matcher never sees the literal: it takes shapes of
blanks, and the blanks of the text around the literal are within its reach too.

`TextAnchor.search_literal` and `Gap.search_literal` are the two results.  The first needs that the
character which the words begin with does not occur in front of them, the second that no gap begins
inside the value in front of it.
-/
import InverseTemplate.Proofs.Anchor.Guards

namespace InverseTemplate

/-! ## Runs of plain blanks -/

theorem blankLine?_append {h : Text} (hh : Text.Horizontal h) (u : Text) :
    blankLine? (h ++ '\n' :: u) = some (h.length + 1) := by
  rw [blankLine?, horizontalLength_append hh, horizontalLength_cons_eq_zero (by decide),
    Nat.add_zero, List.drop_left, lineFeed?, Option.map_some]

/-! ## A text behind a value -/

namespace TextAnchor

variable {literal outer inner : Text} {a : TextAnchor}

/-- Where the literal stands its anchor takes the words, and of the blanks around them what its
guards stop at. -/
theorem parts_literal (h : Anchor.ofLiteral literal = .text a)
    (hspaced : Text.isLineSpaced (Text.strip literal) = true)
    (hs : Text.LeadSplit (Text.leadingBlanks literal) outer inner) {tail rest : Text}
    (ht : Text.TailSplit (Text.trailingBlanks literal) tail rest) (x u : Text) :
    a.Parts (x ++ (literal ++ u)) (x ++ outer).length inner.length (Text.strip literal).length
      tail.length := by
  obtain ⟨hne, rfl⟩ := Anchor.ofLiteral_eq_text_iff.mp h
  have hcut := Text.leadingBlanks_append_strip_append_trailingBlanks hne
  have hrow := Text.wordRow_strip hne
  have hlead := Text.allBlank_leadingBlanks literal
  have htrail := Text.allBlank_trailingBlanks literal
  generalize Text.leadingBlanks literal = lead at *
  generalize Text.strip literal = words at *
  generalize Text.trailingBlanks literal = trail at *
  obtain ⟨c, r, hwords, hc⟩ := hrow.exists_cons
  have hcuts : x ++ (literal ++ u) = (x ++ outer) ++ (inner ++ (words ++ (trail ++ u))) := by
    rw [← hcut, hs.eq_append]
    simp
  have hdrop1 : (x ++ (literal ++ u)).drop ((x ++ outer).length + inner.length) =
      words ++ (trail ++ u) := by
    rw [hcuts, ← List.drop_drop, List.drop_left, List.drop_left]
  have hdrop2 : (x ++ (literal ++ u)).drop ((x ++ outer).length + inner.length + words.length) =
      trail ++ u := by
    rw [← List.drop_drop, hdrop1, List.drop_left]
  refine ⟨?_, ?_, ?_⟩
  · rw [hcuts, Text.before_append, List.drop_left, hwords]
    exact Guard.before?_ofBlanks hs hlead x hc _
  · rw [hdrop1]
    exact (AnchorPiece.lengthAll?_ofText_iff hrow _).mpr ⟨hspaced, rfl⟩
  · rw [hdrop2]
    exact Guard.after?_ofBlanks ht htrail u

/-- A literal of plain blanks is taken where it stands, with at most all of the blanks behind its
words. -/
theorem exists_parts_literal (h : Anchor.ofLiteral literal = .text a)
    (hp : Text.PlainSpacing literal) (hs : Text.LeadSplit (Text.leadingBlanks literal) outer inner)
    (x u : Text) :
    ∃ k, a.Parts (x ++ (literal ++ u)) (x ++ outer).length inner.length
        (Text.strip literal).length k ∧
      k ≤ (Text.trailingBlanks literal).length := by
  obtain ⟨tail, rest, ht⟩ := hp.exists_tailSplit
  have hspaced : Text.isLineSpaced (Text.strip literal) = true :=
    Text.isLineSpaced_of_plainSpacing fun c hc => hp c (Text.mem_of_mem_strip hc)
  refine ⟨tail.length, parts_literal h hspaced hs ht x u, ?_⟩
  rw [ht.eq_append, List.length_append]
  omega

/-- Nothing is taken in front of the words, if the character that they begin with does not occur
there. -/
theorem lengthAt?_eq_none (h : Anchor.ofLiteral literal = .text a)
    (hp : Text.PlainSpacing literal) (hs : Text.LeadSplit (Text.leadingBlanks literal) outer inner)
    {x u : Text} {p : Nat} (hlt : p < (x ++ outer).length)
    (hfree : ∀ k, p ≤ k → k < (x ++ Text.leadingBlanks literal).length →
      (x ++ (literal ++ u))[k]? ≠ (Text.strip literal).head?) :
    a.matcher.lengthAt? (x ++ (literal ++ u)) p = none := by
  cases hm : a.matcher.lengthAt? (x ++ (literal ++ u)) p with
  | none => rfl
  | some n =>
      obtain ⟨k, hown, -⟩ := exists_parts_literal h hp hs x u
      obtain ⟨lead, body, tail, hearly, -⟩ := lengthAt?_matcher_eq_some_iff.mp hm
      have hne := (Anchor.ofLiteral_eq_text_iff.mp h).1
      have hcut := Text.leadingBlanks_append_strip_append_trailingBlanks hne
      have hlead : (x ++ Text.leadingBlanks literal).length =
          (x ++ outer).length + inner.length := by
        rw [hs.eq_append, ← List.append_assoc, List.length_append]
      have hlen : (x ++ outer).length ≤ (x ++ (literal ++ u)).length := by
        have hpre : (x ++ Text.leadingBlanks literal).length ≤ (x ++ (literal ++ u)).length := by
          conv => rhs; rw [← hcut]
          simp
        omega
      have hbefore := Guard.add_lt_add_of_before? hlt hlen hearly.lead_eq hown.lead_eq
      have hwords := hearly.body_eq
      rw [(Anchor.ofLiteral_eq_text_iff.mp h).2] at hwords
      have hhead := AnchorPiece.head?_of_lengthAll? (Text.wordRow_strip hne) hwords
      rw [List.head?_drop] at hhead
      exact absurd hhead (hfree (p + lead) (by omega) (by omega))

/-- A search from far enough in front finds the literal and ends with it, but for blanks. -/
theorem search_literal (h : Anchor.ofLiteral literal = .text a)
    (hp : Text.PlainSpacing literal) (hs : Text.LeadSplit (Text.leadingBlanks literal) outer inner)
    {x u : Text} {o : Nat} (ho : o ≤ (x ++ outer).length)
    (hfree : ∀ k, o ≤ k → k < (x ++ Text.leadingBlanks literal).length →
      (x ++ (literal ++ u))[k]? ≠ (Text.strip literal).head?) :
    ∃ k, a.matcher.search (x ++ (literal ++ u)) o =
        some ⟨(x ++ outer).length,
          (x ++ (Text.leadingBlanks literal ++ Text.strip literal)).length + k⟩ ∧
      k ≤ (Text.trailingBlanks literal).length := by
  obtain ⟨k, hown, hle⟩ := exists_parts_literal h hp hs x u
  have hne := (Anchor.ofLiteral_eq_text_iff.mp h).1
  have hcut := Text.leadingBlanks_append_strip_append_trailingBlanks hne
  refine ⟨k, ?_, hle⟩
  have hlen : (x ++ outer).length ≤ (x ++ (literal ++ u)).length := by
    conv => rhs; rw [← hcut, hs.eq_append]
    simp
  rw [Matcher.search_eq_of_first ho hlen
    (lengthAt?_matcher_eq_some_iff.mpr ⟨_, _, _, hown, rfl⟩)
    fun p h1 h2 => lengthAt?_eq_none h hp hs h2 fun k h3 h4 => hfree k (by omega) h4]
  rw [hs.eq_append]
  simp only [List.length_append]
  congr 2
  omega

end TextAnchor

/-! ## A gap behind a value -/

namespace Gap

theorem exists_length?_ofBlanks {b : Text} (hb : Text.PlainBlanks b) (hne : b ≠ []) (u : Text) :
    ∃ n, (ofBlanks b).length? (b ++ u) = some n := by
  unfold ofBlanks
  cases hb with
  | line hh =>
      have hpos : 0 < b.length := List.length_pos_iff.mpr hne
      rw [List.count_eq_zero.mpr hh.not_mem]
      have hlen := horizontalLength_append hh u
      exact ⟨horizontalLength (b ++ u), by simp only [length?]; rw [if_neg (by omega)]⟩
  | @feed h s hh hs =>
      have hfirst : blankLine? ((h ++ '\n' :: s) ++ u) = some (h.length + 1) := by
        rw [List.append_assoc]
        exact blankLine?_append hh _
      have hcount : ∀ {h s : Text}, Text.Horizontal h →
          (h ++ '\n' :: s).count '\n' = s.count '\n' + 1 := fun {h s} hh => by
        rw [List.count_append, List.count_eq_zero.mpr hh.not_mem, List.count_cons_self,
          Nat.zero_add]
      rw [hcount hh]
      cases hs with
      | line hs =>
          rw [List.count_eq_zero.mpr hs.not_mem]
          exact ⟨_, hfirst⟩
      | @feed h' s' hh' hs' =>
          rw [hcount hh']
          have hrest : ((h ++ '\n' :: (h' ++ '\n' :: s')) ++ u).drop (h.length + 1) =
              h' ++ '\n' :: (s' ++ u) := by
            rw [← List.drop_drop, List.append_assoc, List.drop_left]
            simp
          have hmore := repeated_eq_add (blankLine?_append hh' (s' ++ u)) (by omega) (by simp)
          simp only [length?, hfirst, hrest]
          rw [if_neg (by omega)]
          exact ⟨_, rfl⟩

/-- No gap begins inside a value without line feeds, and none of mere spaces if the value has no
spaces. -/
theorem length?_eq_none {gap : Gap} {v u : Text} {c : Char} (hc : Text.isBlank c = false)
    (hfeed : '\n' ∉ v) (hspaces : gap = .spaces → ∀ d ∈ v, Text.isHorizontal d = false) :
    gap.length? (v ++ c :: u) = none := by
  cases h : gap.length? (v ++ c :: u) with
  | none => rfl
  | some n =>
      obtain ⟨⟨hlen, hblank⟩, hpos⟩ := blankFor_of_length? h
      -- the gap cannot take the character behind `v`, so all that it takes is in `v`
      have hle : n ≤ v.length := by
        have := Text.add_le_of_forall_take (t := v ++ c :: u) (a := 0) (n := n) (k := v.length)
          hblank (by simp) hc (Nat.zero_le _)
        omega
      have htake : (v ++ c :: u).take n = v.take n := List.take_append_of_le_length hle
      rcases take_of_length? h with ⟨hgap, hh⟩ | ⟨a, ha⟩
      · rw [htake] at hh
        obtain ⟨d, r, hv⟩ : ∃ d r, v.take n = d :: r :=
          List.exists_cons_of_length_pos (by rw [List.length_take]; omega)
        have hd : d ∈ v.take n := by rw [hv]; exact List.mem_cons_self ..
        have := hspaces hgap d (List.mem_of_mem_take hd)
        rw [hh d hd] at this
        exact absurd this (by simp)
      · rw [htake] at ha
        exact absurd (List.mem_of_mem_take (l := v) (i := n) (by rw [ha]; simp)) hfeed

theorem ofBlanks_eq_spaces {b : Text} (h : ofBlanks b = .spaces) : '\n' ∉ b := by
  unfold ofBlanks at h
  split at h
  · next hcount => exact List.count_eq_zero.mp hcount
  · simp at h
  · simp at h

/-- A search from the beginning of a value finds the gap behind it. -/
theorem search_literal {b v : Text} (hb : Text.PlainBlanks b) (hne : b ≠ []) (hv : Text.strip v = v)
    (hfeed : '\n' ∉ v) (hspaces : '\n' ∉ b → ∀ d ∈ v, Text.isHorizontal d = false) (x u : Text) :
    ∃ n, (ofBlanks b).length? (b ++ u) = some n ∧
      (ofBlanks b).matcher.search (x ++ (v ++ (b ++ u))) x.length =
        some ⟨(x ++ v).length, (x ++ v).length + n⟩ := by
  obtain ⟨n, hn⟩ := exists_length?_ofBlanks hb hne u
  refine ⟨n, hn, Matcher.search_eq_of_first (by simp) (by simp) ?_ ?_⟩
  · rw [← List.append_assoc, Matcher.lengthAt?_append]
    exact hn
  · intro p h1 h2
    rw [List.length_append] at h2
    obtain ⟨k, rfl⟩ : ∃ k, p = x.length + k := ⟨p - x.length, by omega⟩
    have hrest : v.drop k ≠ [] := by
      intro h0
      have := congrArg List.length h0
      rw [List.length_drop, List.length_nil] at this
      omega
    have hlast : Text.isBlank ((v.drop k).getLast hrest) = false := by
      refine Text.isBlank_getLast_of_strip_eq hv ?_
      rw [List.getLast_drop, List.getLast?_eq_some_getLast]
    have hcut : v.drop k ++ (b ++ u) =
        (v.drop k).dropLast ++ (v.drop k).getLast hrest :: (b ++ u) := by
      conv => lhs; rw [← List.dropLast_concat_getLast hrest]
      simp
    have hsub : ∀ d ∈ (v.drop k).dropLast, d ∈ v :=
      fun d hd => List.mem_of_mem_drop ((List.dropLast_sublist _).subset hd)
    show (ofBlanks b).length? ((x ++ (v ++ (b ++ u))).drop (x.length + k)) = none
    rw [← List.drop_drop, List.drop_left, List.drop_append_of_le_length (by omega), hcut]
    exact length?_eq_none hlast (fun h => hfeed (hsub _ h))
      fun h d hd => hspaces (ofBlanks_eq_spaces h) d (hsub d hd)

end Gap

end InverseTemplate
