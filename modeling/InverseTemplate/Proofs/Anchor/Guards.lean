/-
# The guards of a literal

The blanks around the words of a literal become guards, and a guard need not see all of the blanks
that it was made of: behind a line feed the words ask only for the start of a line, and in front of
one for the end of a line.  So the guard in front begins to match at one place inside of its blanks
(`LeadSplit`), and the one behind stops at one (`TailSplit`).

There are such places where the blanks of the words' own line are plain enough, and only there.
-/
import InverseTemplate.Proofs.Anchor.Spacing

namespace InverseTemplate

/-! ## In front of the words -/

/-- The blanks in front of the words split at the place at which the guard begins to match: behind
the last line feed if there is one, and else right in front of the words. -/
structure Text.LeadSplit (lead outer inner : Text) : Prop where
  eq_append : lead = outer ++ inner
  horizontal : Text.Horizontal inner
  ends : (∃ a, outer = a ++ ['\n']) ∨ ('\n' ∉ lead ∧ inner = [])

theorem Text.PlainBlanks.exists_leadSplit {lead : Text} (h : Text.PlainBlanks lead) :
    ∃ outer inner, Text.LeadSplit lead outer inner := by
  by_cases hmem : '\n' ∈ lead
  · obtain ⟨a, l, hl, hh⟩ := h.exists_lastLine hmem
    exact ⟨a ++ ['\n'], l, hl, hh, .inl ⟨a, rfl⟩⟩
  · exact ⟨lead, [], by simp, by simp [Text.Horizontal], .inr ⟨hmem, rfl⟩⟩

theorem Text.PlainSpacing.exists_leadSplit {t : Text} (h : Text.PlainSpacing t) :
    ∃ outer inner, Text.LeadSplit (Text.leadingBlanks t) outer inner :=
  (Text.plainBlanks_of_allBlank (Text.allBlank_leadingBlanks t)
    fun c hc => h c ((List.takeWhile_sublist _).subset hc)).exists_leadSplit

/-- Blanks that a text begins with, within a line or up to the end of one, do not reach past that
place. -/
theorem Text.LeadSplit.length_le {lead outer inner b r u : Text} {c : Char}
    (hs : LeadSplit lead outer inner) (heq : lead ++ c :: u = b ++ r) (hc : isBlank c = false)
    (hb : AllBlank b) (hends : '\n' ∉ b ∨ ∃ a, b = a ++ ['\n']) : b.length ≤ outer.length := by
  rw [hs.eq_append, List.append_assoc] at heq
  rcases List.append_eq_append_iff.mp heq with ⟨s, rfl, hs'⟩ | ⟨s, rfl, -⟩
  · -- `s` is what would be used up behind that place; it lies in the blanks in front of the words
    have hinner : ∀ d ∈ s, d ∈ inner := by
      rcases List.append_eq_append_iff.mp hs' with ⟨s', rfl, hs''⟩ | ⟨s', rfl, -⟩
      · cases s' with
        | nil => simp
        | cons d s' =>
            cases hs''
            have := hb c (by simp)
            rw [hc] at this
            exact absurd this (by simp)
      · exact fun d hd => List.mem_append_left _ hd
    cases s with
    | nil => simp
    | cons d s =>
        rcases hs.ends with ⟨a, rfl⟩ | ⟨-, rfl⟩
        · rcases hends with hmem | ⟨a', ha'⟩
          · simp at hmem
          · have hlast := congrArg List.getLast? ha'
            rw [List.getLast?_concat, List.getLast?_append_cons] at hlast
            have hmem := hs.horizontal _ (hinner _ (List.mem_of_getLast? hlast))
            exact absurd hmem (by decide)
        · exact absurd (hinner d (List.mem_cons_self ..)) (by simp)
  · rw [List.length_append]
    omega

theorem Guard.before?_ofBlanks {lead outer inner : Text} (hs : Text.LeadSplit lead outer inner)
    (hb : Text.AllBlank lead) (x : Text) {c : Char} (hc : Text.isBlank c = false) (u : Text) :
    (Guard.ofBlanks lead).before? (x ++ outer).getLast? (inner ++ c :: u) = some inner.length := by
  unfold Guard.ofBlanks
  rcases hs.ends with ⟨a, ha⟩ | ⟨hmem, hinner⟩
  · have hmem : '\n' ∈ lead := by rw [hs.eq_append, ha]; simp
    have hlast : (x ++ outer).getLast? = some '\n' := by
      rw [ha, ← List.append_assoc, List.getLast?_concat]
    rw [if_pos (by simpa using hmem), hlast, Guard.before?]
    rw [if_pos (by decide), horizontalLength_append hs.horizontal,
      horizontalLength_cons_eq_zero (isHorizontal_eq_false hc), Nat.add_zero]
  · have houter : outer = lead := by rw [hs.eq_append, hinner, List.append_nil]
    rw [if_neg (by simpa using hmem), hinner, houter]
    by_cases hl : lead = []
    · rw [if_pos hl]
      rfl
    · rw [if_neg hl, Guard.before?]
      rw [if_pos ?_, List.length_nil]
      obtain ⟨d, hd⟩ : ∃ d, lead.getLast? = some d := ⟨_, List.getLast?_eq_some_getLast hl⟩
      rw [List.getLast?_append, hd, Option.some_or, Option.all_some]
      exact hb d (List.mem_of_getLast? hd)

/-- A guard in front of a text that takes all from some place inside of its own blanks begins to
match where they split. -/
theorem Guard.leadSplit_of_before? {x lead u : Text} {k l : Nat} (hk : k + l = lead.length)
    (h : (Guard.ofBlanks lead).before? ((x ++ (lead ++ u)).before (x.length + k))
      ((lead ++ u).drop k) = some l) :
    Text.LeadSplit lead (lead.take k) (lead.drop k) := by
  unfold Guard.ofBlanks at h
  by_cases hmem : '\n' ∈ lead
  · rw [if_pos (by simpa using hmem), Guard.before?] at h
    split at h
    · next hline =>
        rw [List.drop_append_of_le_length (by omega), Option.some.injEq] at h
        have hinner : Text.Horizontal (lead.drop k) := by
          refine horizontal_of_le_horizontalLength (u := u) ?_
          rw [h, List.length_drop]
          omega
        refine ⟨(List.take_append_drop k lead).symm, hinner, .inl ?_⟩
        cases k with
        | zero => exact absurd hmem hinner.not_mem
        | succ j =>
            have hj : j < lead.length := by omega
            have hprevious : (x ++ (lead ++ u)).before (x.length + (j + 1)) =
                some lead[j] := by
              rw [Text.before, if_neg (by omega), List.getElem?_append_right (by omega),
                List.getElem?_append_left (by omega),
                show x.length + (j + 1) - 1 - x.length = j by omega, List.getElem?_eq_getElem hj]
            rw [hprevious, beginsLine, decide_eq_true_eq] at hline
            exact ⟨lead.take j, by rw [List.take_succ_eq_append_getElem hj, hline]⟩
    · simp at h
  · rw [if_neg (by simpa using hmem)] at h
    have hl : l = 0 := by
      split at h
      · exact (Option.some.inj h).symm
      · rw [Guard.before?] at h
        split at h
        · exact (Option.some.inj h).symm
        · simp at h
    obtain rfl : k = lead.length := by omega
    exact ⟨(List.take_append_drop _ lead).symm, by simp [Text.Horizontal], .inr ⟨hmem, by simp⟩⟩

/-! ## Behind the words -/

/-- The blanks behind the words split at the place at which the guard stops: in front of the first
line feed if there is one, and else right behind the words. -/
structure Text.TailSplit (trail inner outer : Text) : Prop where
  eq_append : trail = inner ++ outer
  lineTail : ∀ c ∈ inner, isLineTail c = true
  begins : (∃ a, outer = '\n' :: a) ∨ ('\n' ∉ trail ∧ inner = [])

theorem Text.PlainBlanks.exists_tailSplit {trail : Text} (h : Text.PlainBlanks trail) :
    ∃ inner outer, Text.TailSplit trail inner outer := by
  cases h with
  | line hh => exact ⟨[], trail, rfl, by simp, .inr ⟨hh.not_mem, rfl⟩⟩
  | @feed h s hh hs =>
      exact ⟨h, '\n' :: s, rfl, fun c hc => by simp [isLineTail, hh c hc], .inl ⟨s, rfl⟩⟩

theorem Text.PlainSpacing.exists_tailSplit {t : Text} (h : Text.PlainSpacing t) :
    ∃ inner outer, Text.TailSplit (Text.trailingBlanks t) inner outer :=
  (Text.plainBlanks_of_allBlank (Text.allBlank_trailingBlanks t)
    fun c hc => h c ((List.drop_sublist ..).subset hc)).exists_tailSplit

theorem length_takeWhile_isLineTail {inner r : Text} (h : ∀ c ∈ inner, isLineTail c = true)
    (hr : r.head?.all isLineTail = false) :
    ((inner ++ r).takeWhile isLineTail).length = inner.length := by
  cases r with
  | nil => simp at hr
  | cons c r =>
      rw [List.takeWhile_append_of_pos h, List.takeWhile_cons_of_neg (by simpa using hr),
        List.append_nil]

theorem Guard.after?_ofBlanks {trail inner outer : Text} (hs : Text.TailSplit trail inner outer)
    (hb : Text.AllBlank trail) (u : Text) :
    (Guard.ofBlanks trail).after? (trail ++ u) = some inner.length := by
  unfold Guard.ofBlanks
  rcases hs.begins with ⟨a, ha⟩ | ⟨hmem, hinner⟩
  · have hmem : '\n' ∈ trail := by rw [hs.eq_append, ha]; simp
    have htail : ((trail ++ u).takeWhile isLineTail).length = inner.length := by
      rw [hs.eq_append, List.append_assoc, ha]
      exact length_takeWhile_isLineTail hs.lineTail rfl
    rw [if_pos (by simpa using hmem), Guard.after?]
    rw [htail, hs.eq_append, List.append_assoc, List.drop_left, ha, if_pos (by simp)]
  · rw [if_neg (by simpa using hmem), hinner]
    cases trail with
    | nil => rfl
    | cons c r =>
        rw [if_neg (by simp), Guard.after?]
        rw [if_pos (by simpa using hb c (List.mem_cons_self ..)), List.length_nil]

theorem Guard.exists_tailSplit_of_after? {trail u : Text} {n : Nat}
    (h : (Guard.ofBlanks trail).after? (trail ++ u) = some n) :
    ∃ inner outer, Text.TailSplit trail inner outer := by
  by_cases hmem : '\n' ∈ trail
  · rw [Guard.ofBlanks, if_pos (by simpa using hmem), Guard.after?] at h
    have hcut := List.takeWhile_append_dropWhile (p := isLineTail) (l := trail)
    have hall : ∀ c ∈ trail.takeWhile isLineTail, isLineTail c = true :=
      fun c hc => List.mem_takeWhile_imp hc
    cases hrest : trail.dropWhile isLineTail with
    | nil =>
        rw [hrest, List.append_nil] at hcut
        rw [← hcut] at hmem
        exact absurd (hall _ hmem) (by decide)
    | cons d s =>
        have hd : isLineTail d = false := Text.head_dropWhile_imp hrest
        rw [hrest] at hcut
        have hlen : ((trail ++ u).takeWhile isLineTail).length =
            (trail.takeWhile isLineTail).length := by
          conv => lhs; rw [← hcut, List.append_assoc]
          exact length_takeWhile_isLineTail hall (by simpa using hd)
        have hdrop : (trail ++ u).drop (trail.takeWhile isLineTail).length = d :: (s ++ u) := by
          have h : (trail.takeWhile isLineTail ++ d :: (s ++ u)).drop
              (trail.takeWhile isLineTail).length = d :: (s ++ u) := List.drop_left
          rwa [← List.cons_append, ← List.append_assoc, hcut] at h
        rw [hlen, hdrop] at h
        split at h
        · next hfeed =>
            obtain rfl : d = '\n' := by simpa using hfeed
            exact ⟨_, _, hcut.symm, hall, .inl ⟨s, rfl⟩⟩
        · simp at h
  · exact ⟨[], trail, rfl, by simp, .inr ⟨hmem, rfl⟩⟩

end InverseTemplate
