/-
# Fences by searching

The fences of a text can be looked for without cutting it into lines.  A pattern that matches only
where a line begins is searched for from an offset on: first the one of an opening line, and
behind the line feed that ends this line the one of its closing line, which depends on what was
found.  The search goes on at the end of the closing line (`Fence.searchFrom`).

The patterns take a line and no more of the text (`Fence.openingMatch?_eq_some_iff`,
`Fence.closingMatch?_eq_some_iff`), and they are spelled out here as `Fence.Opens` and
`Fence.Closes`.
-/
import InverseTemplate.Markdown.Fence
import InverseTemplate.Proofs.Text.PlainBlanks
import InverseTemplate.Proofs.Text.Strip

namespace InverseTemplate

namespace Fence

/-! ## What opens and what closes a fence -/

/-- A marker that can open a fence: at least three backticks or tildes. -/
structure Marker.Proper (marker : Marker) : Prop where
  mark : marker.mark = backtick ∨ marker.mark = '~'
  width : 3 ≤ marker.width

/-- The line opens a fence with the marker: it begins with at most three horizontal blanks and
with a longest run of the mark. -/
def Opens (marker : Marker) (content : Text) : Prop :=
  marker.Proper ∧ ∃ blanks behind,
    content = blanks ++ (List.replicate marker.width marker.mark ++ behind) ∧
      Text.Horizontal blanks ∧ blanks.length ≤ 3 ∧ behind.head? ≠ some marker.mark

/-- The line closes a fence that the marker opened: it is at most three horizontal blanks, a run
of the mark that is at least as long as the opening one, and horizontal blanks. -/
def Closes (marker : Marker) (content : Text) : Prop :=
  ∃ blanks width behind, content = blanks ++ (List.replicate width marker.mark ++ behind) ∧
    Text.Horizontal blanks ∧ blanks.length ≤ 3 ∧ marker.width ≤ width ∧ Text.Horizontal behind

/-- Nothing follows on the line. -/
def LineEnd (behind : Text) : Prop := behind = [] ∨ behind.head? = some '\n'

instance (behind : Text) : Decidable (LineEnd behind) :=
  inferInstanceAs (Decidable (behind = [] ∨ behind.head? = some '\n'))

theorem LineEnd.eq_lineFeed {behind : Text} (h : LineEnd behind) {c : Char}
    (hc : behind.head? = some c) : c = '\n' := by
  rcases h with rfl | h
  · cases hc
  · exact Option.some.inj (hc.symm.trans h)

/-! ## The two patterns -/

/-- What the pattern of an opening line takes of a text: the marker, and how many characters. -/
def openingMatch? (t : Text) : Option (Marker × Nat) :=
  let blanks := min 3 (t.takeWhile Text.isHorizontal).length
  match t.drop blanks with
  | [] => none
  | c :: r =>
      let width := (r.takeWhile (· = c)).length + 1
      if (c = backtick ∨ c = '~') ∧ 3 ≤ width then some (⟨c, width⟩, blanks + width) else none

/-- How many characters of a text the pattern of a closing line takes. -/
def closingMatch? (marker : Marker) (t : Text) : Option Nat :=
  let blanks := min 3 (t.takeWhile Text.isHorizontal).length
  let run := t.drop blanks
  let width := (run.takeWhile (· = marker.mark)).length
  let tail := run.dropWhile (· = marker.mark)
  if marker.width ≤ width ∧ LineEnd (tail.dropWhile Text.isHorizontal) then
    some (blanks + width + (tail.takeWhile Text.isHorizontal).length)
  else none

theorem Marker.Proper.isHorizontal {marker : Marker} (h : marker.Proper) :
    Text.isHorizontal marker.mark = false := by
  rcases h.mark with hmark | hmark <;> rw [hmark] <;> decide

theorem Marker.Proper.width_ne {marker : Marker} (h : marker.Proper) : marker.width ≠ 0 := by
  have := h.width
  omega

theorem Marker.Proper.ne_lineFeed {marker : Marker} (h : marker.Proper) : marker.mark ≠ '\n' := by
  rcases h.mark with hmark | hmark <;> rw [hmark] <;> decide

theorem Marker.Proper.isHorizontal_head {marker : Marker} (h : marker.Proper) {width : Nat}
    (hwidth : marker.width ≤ width) (behind : Text) :
    ∀ c, (List.replicate width marker.mark ++ behind).head? = some c →
      Text.isHorizontal c = false := by
  have hpos := h.width
  rw [show width = width - 1 + 1 by omega, List.replicate_succ]
  rintro c ⟨rfl⟩
  exact h.isHorizontal

theorem exists_blanks (t : Text) :
    ∃ blanks, t = blanks ++ t.drop (min 3 (t.takeWhile Text.isHorizontal).length) ∧
      Text.Horizontal blanks ∧ blanks.length ≤ 3 ∧
      blanks.length = min 3 (t.takeWhile Text.isHorizontal).length := by
  have hprefix := (List.takeWhile_prefix Text.isHorizontal (l := t)).length_le
  refine ⟨t.take (min 3 (t.takeWhile Text.isHorizontal).length),
    (List.take_append_drop _ t).symm, ?_, ?_, ?_⟩
  · intro c hc
    have htake : t.takeWhile Text.isHorizontal = t.take (t.takeWhile Text.isHorizontal).length :=
      List.prefix_iff_eq_take.mp (List.takeWhile_prefix _)
    refine List.mem_takeWhile_imp (l := t) ?_
    rw [htake]
    exact List.mem_of_mem_take (i := 3) (by rwa [List.take_take])
  · rw [List.length_take]
    omega
  · rw [List.length_take]
    omega

theorem drop_blanks {blanks run : Text} (hblanks : Text.Horizontal blanks)
    (hlen : blanks.length ≤ 3) (hrun : ∀ c, run.head? = some c → Text.isHorizontal c = false) :
    min 3 ((blanks ++ run).takeWhile Text.isHorizontal).length = blanks.length ∧
      (blanks ++ run).drop blanks.length = run := by
  rw [(Text.takeWhile_append_of_stop hblanks hrun).1]
  exact ⟨Nat.min_eq_right hlen, List.drop_left⟩

theorem takeWhile_run {mark : Char} {width : Nat} {behind : Text}
    (h : behind.head? ≠ some mark) :
    (List.replicate width mark ++ behind).takeWhile (· = mark) = List.replicate width mark ∧
      (List.replicate width mark ++ behind).dropWhile (· = mark) = behind := by
  refine Text.takeWhile_append_of_stop ?_ ?_
  · intro c hc
    simpa using (List.mem_replicate.mp hc).2
  · intro c hc
    have hne : c ≠ mark := by
      rintro rfl
      exact h hc
    simpa using hne

theorem openingMatch?_eq_some_iff {t : Text} {marker : Marker} {n : Nat} :
    openingMatch? t = some (marker, n) ↔
      marker.Proper ∧ ∃ blanks behind,
        t = blanks ++ (List.replicate marker.width marker.mark ++ behind) ∧
          Text.Horizontal blanks ∧ blanks.length ≤ 3 ∧ behind.head? ≠ some marker.mark ∧
          n = blanks.length + marker.width := by
  constructor
  · intro h
    obtain ⟨blanks, hcut, hblanks, hle, hlen⟩ := exists_blanks t
    rw [openingMatch?] at h
    split at h
    · cases h
    · next c r hrun =>
        dsimp only at h
        split at h
        · next hmark =>
            cases h
            refine ⟨⟨hmark.1, hmark.2⟩, blanks, r.dropWhile (· = c), ?_, hblanks, hle, ?_, ?_⟩
            · rw [List.replicate_succ, List.cons_append, Text.replicate_append_dropWhile, ← hrun]
              exact hcut
            · exact Text.head?_dropWhile_ne c r
            · rw [hlen]
        · cases h
  · rintro ⟨hproper, blanks, behind, rfl, hblanks, hle, hhead, rfl⟩
    obtain ⟨hmin, hdrop⟩ :=
      drop_blanks hblanks hle (hproper.isHorizontal_head (Nat.le_refl _) behind)
    obtain ⟨mark, width⟩ := marker
    obtain ⟨more, rfl⟩ : ∃ more, width = more + 1 := Nat.exists_eq_succ_of_ne_zero hproper.width_ne
    rw [openingMatch?, hmin, hdrop, List.replicate_succ, List.cons_append]
    simp only [(takeWhile_run hhead).1, List.length_replicate]
    rw [if_pos ⟨hproper.mark, hproper.width⟩]

theorem closingMatch?_eq_some_iff {marker : Marker} (hproper : marker.Proper) {t : Text} {n : Nat} :
    closingMatch? marker t = some n ↔
      ∃ content behind, t = content ++ behind ∧ Closes marker content ∧ LineEnd behind ∧
        n = content.length := by
  constructor
  · intro h
    obtain ⟨blanks, hcut, hblanks, hle, hlen⟩ := exists_blanks t
    rw [closingMatch?] at h
    split at h
    · next hends =>
        cases h
        generalize t.drop (min 3 (t.takeWhile Text.isHorizontal).length) = run at hcut hends ⊢
        have hrun := Text.replicate_append_dropWhile marker.mark run
        generalize run.dropWhile (· = marker.mark) = tail at hrun hends ⊢
        have htail := List.takeWhile_append_dropWhile (p := Text.isHorizontal) (l := tail)
        have hhorizontal : Text.Horizontal (tail.takeWhile Text.isHorizontal) :=
          fun c hc => List.mem_takeWhile_imp hc
        rw [← htail] at hrun
        refine ⟨_, _, ?_, ⟨blanks, _, _, rfl, hblanks, hle, hends.1, hhorizontal⟩, hends.2, ?_⟩
        · rw [List.append_assoc, List.append_assoc, hrun]
          exact hcut
        · simp [hlen, Nat.add_assoc]
    · cases h
  · rintro ⟨_, behind, rfl, ⟨blanks, width, tail, rfl, hblanks, hle, hwidth, htail⟩, hends, rfl⟩
    -- what stands behind the run is a blank or a line feed, so the run is not continued
    have hhead : (tail ++ behind).head? ≠ some marker.mark := by
      intro hhead
      cases tail with
      | nil => exact hproper.ne_lineFeed (hends.eq_lineFeed hhead)
      | cons c r =>
          have hblank := htail c (List.mem_cons_self ..)
          rw [show c = marker.mark from Option.some.inj hhead, hproper.isHorizontal] at hblank
          cases hblank
    have hfeed : ∀ c, behind.head? = some c → Text.isHorizontal c = false := by
      intro c hc
      rw [hends.eq_lineFeed hc]
      decide
    obtain ⟨hmin, hdrop⟩ :=
      drop_blanks hblanks hle (hproper.isHorizontal_head hwidth (tail ++ behind))
    obtain ⟨htake, hrest⟩ := Text.takeWhile_append_of_stop htail hfeed
    rw [List.append_assoc, List.append_assoc, closingMatch?, hmin, hdrop]
    simp only [(takeWhile_run hhead).1, (takeWhile_run hhead).2, htake, hrest,
      List.length_replicate]
    rw [if_pos ⟨hwidth, hends⟩]
    simp [Nat.add_assoc]

/-! ## Lines -/

variable {content behind : Text} {marker : Marker} {n : Nat}

theorem prefix_line {front : Text} (hfront : '\n' ∉ front) (hends : LineEnd behind)
    (h : front <+: content ++ behind) : front <+: content := by
  refine Text.prefix_of_prefix_append h ?_
  intro c hc
  rw [hends.eq_lineFeed hc]
  exact hfront

theorem Closes.not_mem (h : Closes marker content) (hproper : marker.Proper) : '\n' ∉ content := by
  obtain ⟨blanks, width, tail, rfl, hblanks, -, -, htail⟩ := h
  simp only [List.mem_append, not_or]
  exact ⟨hblanks.not_mem, fun hmem => hproper.ne_lineFeed (List.mem_replicate.mp hmem).2.symm,
    htail.not_mem⟩

theorem opens_of_openingMatch? (hends : LineEnd behind)
    (h : openingMatch? (content ++ behind) = some (marker, n)) :
    Opens marker content ∧ n ≤ content.length := by
  obtain ⟨hproper, blanks, rest, heq, hblanks, hle, hhead, rfl⟩ := openingMatch?_eq_some_iff.mp h
  have hfree : '\n' ∉ blanks ++ List.replicate marker.width marker.mark := by
    simp only [List.mem_append, not_or]
    exact ⟨hblanks.not_mem, fun hmem => hproper.ne_lineFeed (List.mem_replicate.mp hmem).2.symm⟩
  have hfront : blanks ++ List.replicate marker.width marker.mark <+: content ++ behind := by
    rw [heq, ← List.append_assoc]
    exact List.prefix_append ..
  obtain ⟨r, rfl⟩ := prefix_line hfree hends hfront
  simp only [List.append_assoc, List.append_cancel_left_eq] at heq
  refine ⟨⟨hproper, blanks, r, by rw [List.append_assoc], hblanks, hle, ?_⟩, ?_⟩
  · intro hr
    rw [← heq, List.head?_append, hr] at hhead
    exact hhead rfl
  · simp only [List.length_append, List.length_replicate]
    omega

theorem exists_openingMatch? (hends : LineEnd behind) (h : Opens marker content) :
    ∃ n, openingMatch? (content ++ behind) = some (marker, n) := by
  obtain ⟨hproper, blanks, rest, rfl, hblanks, hle, hhead⟩ := h
  refine ⟨_, openingMatch?_eq_some_iff.mpr
    ⟨hproper, blanks, rest ++ behind, by simp, hblanks, hle, ?_, rfl⟩⟩
  cases rest with
  | nil => exact fun hbehind => hproper.ne_lineFeed (hends.eq_lineFeed hbehind)
  | cons c r => exact hhead

/-- The pattern of a closing line takes a whole line. -/
theorem closingMatch?_line_iff (hproper : marker.Proper) (hline : '\n' ∉ content)
    (hends : LineEnd behind) :
    closingMatch? marker (content ++ behind) = some n ↔
      Closes marker content ∧ n = content.length := by
  rw [closingMatch?_eq_some_iff hproper]
  constructor
  · rintro ⟨content', behind', heq, hcloses, hends', rfl⟩
    have hline' := hcloses.not_mem hproper
    have hle : content' <+: content := prefix_line hline' hends (heq ▸ List.prefix_append ..)
    have hge : content <+: content' := prefix_line hline hends' (heq ▸ List.prefix_append ..)
    have hsame : content' = content :=
      List.IsPrefix.eq_of_length hle (Nat.le_antisymm hle.length_le hge.length_le)
    rw [← hsame]
    exact ⟨hcloses, rfl⟩
  · rintro ⟨hcloses, rfl⟩
    exact ⟨content, behind, rfl, hcloses, hends, rfl⟩

/-! ## Searching -/

/-- Does a line begin at the offset? -/
def beginsLine (t : Text) (offset : Nat) : Bool := offset = 0 || t[offset - 1]? = some '\n'

variable {α : Type}

/-- The first place at which a line begins and a pattern matches, from an offset on.  The flag says
whether a line begins at the offset itself. -/
def searchRest (pattern : Text → Option α) (begins : Bool) (offset : Nat) : Text → Option (Nat × α)
  | [] => if begins then (pattern []).map (offset, ·) else none
  | c :: r =>
      match if begins then pattern (c :: r) else none with
      | some found => some (offset, found)
      | none => searchRest pattern (c = '\n') (offset + 1) r

/-- The first place at which a line begins and a pattern matches, from an offset of a text on. -/
def search (pattern : Text → Option α) (t : Text) (offset : Nat) : Option (Nat × α) :=
  searchRest pattern (beginsLine t offset) offset (t.drop offset)

theorem le_of_searchRest {pattern : Text → Option α} {begins : Bool} {offset place : Nat} {t : Text}
    {found : α} (h : searchRest pattern begins offset t = some (place, found)) :
    offset ≤ place := by
  induction t generalizing begins offset with
  | nil =>
      rw [searchRest] at h
      split at h
      · obtain ⟨_, -, heq⟩ := Option.map_eq_some_iff.mp h
        cases heq
        exact Nat.le_refl _
      · cases h
  | cons c r ih =>
      rw [searchRest] at h
      split at h
      · cases h
        exact Nat.le_refl _
      · exact Nat.le_of_succ_le (ih h)

/-- The fences that are found from an offset of a text on. -/
def searchFrom (t : Text) (offset : Nat) : List Span :=
  if offset < t.length then
    match _ho : search openingMatch? t offset with
    | none => []
    | some (start, marker, width) =>
        match (t.drop (start + width)).findIdx? (· = '\n') with
        | none => [⟨start, t.length⟩]
        | some n =>
            match _hc : search (closingMatch? marker) t (start + width + n + 1) with
            | none => [⟨start, t.length⟩]
            | some (last, length) => ⟨start, last + length⟩ :: searchFrom t (last + length)
  else []
termination_by t.length - offset
decreasing_by
  have hstart := le_of_searchRest _ho
  have hlast := le_of_searchRest _hc
  omega

/-- What is found behind an opening line: the end of the fence, and the fences behind it. -/
def searchBehind (t : Text) (start : Nat) (marker : Marker) (offset : Nat) : List Span :=
  match search (closingMatch? marker) t offset with
  | none => [⟨start, t.length⟩]
  | some (last, length) => ⟨start, last + length⟩ :: searchFrom t (last + length)

variable {t : Text} {offset start : Nat}

theorem searchFrom_eq :
    searchFrom t offset =
      match search openingMatch? t offset with
      | none => []
      | some (start, marker, width) =>
          match (t.drop (start + width)).findIdx? (· = '\n') with
          | none => [⟨start, t.length⟩]
          | some n => searchBehind t start marker (start + width + n + 1) := by
  rw [searchFrom]
  split
  · split
    · next hnone => rw [hnone]
    · next hsome =>
        rw [hsome]
        simp only
        split
        · rfl
        · rw [searchBehind]
          split
          · next hnone => rw [hnone]
          · next hclosing => rw [hclosing]
  · next hle =>
      have hnil : t.drop offset = [] := List.drop_eq_nil_of_le (Nat.le_of_not_lt hle)
      have hnone : search openingMatch? t offset = none := by
        rw [search, hnil, searchRest]
        split <;> rfl
      rw [hnone]

/-! ## Searching line by line -/

/-- From an offset on a line of the text begins, and behind it a text that is empty or begins with
the next line feed. -/
structure LineAt (t : Text) (offset : Nat) (content behind : Text) : Prop where
  begins : beginsLine t offset = true
  drop : t.drop offset = content ++ behind
  line : '\n' ∉ content
  ends : LineEnd behind

section

variable {pattern : Text → Option α} {found : α}

theorem searchRest_false (hline : '\n' ∉ content) :
    searchRest pattern false offset (content ++ behind) =
      searchRest pattern false (offset + content.length) behind := by
  induction content generalizing offset with
  | nil => rfl
  | cons c r ih =>
      rw [List.mem_cons, not_or] at hline
      have hc : decide (c = '\n') = false := by simpa using Ne.symm hline.1
      rw [List.cons_append, searchRest, hc]
      simp only [Bool.false_eq_true, if_false]
      rw [ih hline.2, List.length_cons, Nat.add_assoc, Nat.add_comm 1]

theorem LineAt.search_of_some (h : LineAt t offset content behind)
    (hfound : pattern (content ++ behind) = some found) :
    search pattern t offset = some (offset, found) := by
  rw [search, h.begins, h.drop]
  cases hcut : content ++ behind with
  | nil =>
      rw [hcut] at hfound
      rw [searchRest, if_pos rfl, hfound]
      rfl
  | cons c r =>
      rw [hcut] at hfound
      rw [searchRest, if_pos rfl, hfound]

theorem LineAt.search_of_none (h : LineAt t offset content behind)
    (hnone : pattern (content ++ behind) = none) :
    search pattern t offset = searchRest pattern false (offset + content.length) behind := by
  rw [← searchRest_false h.line, search, h.begins, h.drop]
  cases hcut : content ++ behind with
  | nil =>
      rw [hcut] at hnone
      rw [searchRest, searchRest, if_pos rfl, hnone]
      rfl
  | cons c r =>
      rw [hcut] at hnone
      rw [searchRest, searchRest, if_pos rfl, hnone]
      rfl

theorem LineAt.drop_stop (h : LineAt t offset content behind) :
    t.drop (offset + content.length) = behind := by
  rw [← List.drop_drop, h.drop, List.drop_left]

theorem LineAt.next {rest : Text} (h : LineAt t offset content ('\n' :: rest)) :
    beginsLine t (offset + content.length + 1) = true ∧
      t.drop (offset + content.length + 1) = rest := by
  have hdrop := h.drop_stop
  have hfeed : t[offset + content.length]? = some '\n' := by
    rw [← List.head?_drop, hdrop]
    rfl
  constructor
  · simp [beginsLine, hfeed]
  · rw [← List.drop_drop, hdrop]
    rfl

theorem LineAt.search_feed (h : LineAt t offset content behind) :
    searchRest pattern false (offset + content.length) behind =
      match behind with
      | [] => none
      | _ :: _ => search pattern t (offset + content.length + 1) := by
  cases behind with
  | nil => rfl
  | cons c rest =>
      obtain rfl : c = '\n' := h.ends.eq_lineFeed rfl
      obtain ⟨hbegins, hrest⟩ := h.next
      simp only [search, hbegins, hrest]
      rfl

theorem LineAt.search_stop (h : LineAt t offset content behind) (hne : content ≠ []) :
    search pattern t (offset + content.length) =
      searchRest pattern false (offset + content.length) behind := by
  have hbegins : beginsLine t (offset + content.length) = false := by
    have hpos := List.length_pos_iff.mpr hne
    have hlast : t[offset + content.length - 1]? = content[content.length - 1]? := by
      rw [← List.getElem?_append_left (Nat.sub_one_lt_of_lt hpos), ← h.drop, List.getElem?_drop,
        Nat.add_sub_assoc hpos]
    have hfeed : content[content.length - 1]? ≠ some '\n' :=
      fun heq => h.line (List.mem_of_getElem? heq)
    rw [beginsLine, hlast]
    simp only [Bool.or_eq_false_iff, decide_eq_false_iff_not]
    exact ⟨by omega, hfeed⟩
  rw [search, hbegins, h.drop_stop]

end

/-- The fences that are found behind a line, where the next line begins at the given offset, if
there is one. -/
def searchNext (t : Text) (next : Nat) : Text → List Span
  | [] => []
  | _ :: _ => searchFrom t next

/-- The same in an open fence. -/
def searchNextBehind (t : Text) (start : Nat) (marker : Marker) (next : Nat) : Text → List Span
  | [] => [⟨start, t.length⟩]
  | _ :: _ => searchBehind t start marker next

theorem LineAt.searchFrom_of_none (h : LineAt t offset content behind)
    (hnone : openingMatch? (content ++ behind) = none) :
    searchFrom t offset = searchNext t (offset + content.length + 1) behind := by
  rw [searchFrom_eq, h.search_of_none hnone, h.search_feed]
  cases behind with
  | nil => rfl
  | cons c r => rw [searchNext, searchFrom_eq]

theorem LineAt.searchFrom_stop (h : LineAt t offset content behind) (hne : content ≠ []) :
    searchFrom t (offset + content.length) = searchNext t (offset + content.length + 1) behind := by
  rw [searchFrom_eq, h.search_stop hne, h.search_feed]
  cases behind with
  | nil => rfl
  | cons c r => rw [searchNext, searchFrom_eq]

theorem LineAt.searchFrom_of_some (h : LineAt t offset content behind)
    (hfound : openingMatch? (content ++ behind) = some (marker, n)) :
    searchFrom t offset =
      searchNextBehind t offset marker (offset + content.length + 1) behind := by
  have hn := (opens_of_openingMatch? h.ends hfound).2
  have hdrop : t.drop (offset + n) = content.drop n ++ behind := by
    rw [← List.drop_drop, h.drop, List.drop_append_of_le_length hn]
  have hline : '\n' ∉ content.drop n := fun hmem => h.line (List.mem_of_mem_drop hmem)
  rw [searchFrom_eq, h.search_of_some hfound]
  simp only [hdrop]
  cases behind with
  | nil =>
      have hnone : (content.drop n ++ []).findIdx? (· = '\n') = none := by
        rw [List.append_nil, List.findIdx?_eq_none_iff]
        intro c hc
        simpa using fun heq : c = '\n' => hline (heq ▸ hc)
      rw [hnone, searchNextBehind]
  | cons c r =>
      obtain rfl : c = '\n' := h.ends.eq_lineFeed rfl
      have hsome : (content.drop n ++ '\n' :: r).findIdx? (· = '\n') =
          some (content.drop n).length :=
        Text.findIdx?_eq_some_iff_append.mpr ⟨_, r, rfl, hline, rfl⟩
      rw [hsome, List.length_drop, searchNextBehind]
      simp only
      congr 1
      omega

theorem LineAt.searchBehind_of_none (h : LineAt t offset content behind)
    (hnone : closingMatch? marker (content ++ behind) = none) :
    searchBehind t start marker offset =
      searchNextBehind t start marker (offset + content.length + 1) behind := by
  rw [searchBehind, h.search_of_none hnone, h.search_feed]
  cases behind with
  | nil => rfl
  | cons c r => rfl

theorem LineAt.searchBehind_of_some (h : LineAt t offset content behind) (hne : content ≠ [])
    (hfound : closingMatch? marker (content ++ behind) = some content.length) :
    searchBehind t start marker offset =
      ⟨start, offset + content.length⟩ :: searchNext t (offset + content.length + 1) behind := by
  rw [searchBehind, h.search_of_some hfound]
  simp only [h.searchFrom_stop hne]

end Fence

end InverseTemplate
