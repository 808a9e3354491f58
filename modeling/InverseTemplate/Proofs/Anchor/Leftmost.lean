/-
# The leftmost hit that counts

A search goes on behind the block in which it passed over a hit, and never looks at the rest of that
block.  Nothing is lost by this: what it does not look at lies inside the same block, so it would be
passed over too.  What the search answers with is therefore the hit at the least offset, from the
origin on, that does not lie inside a block that began at or after the origin, and it answers with
nothing only if there is no such hit (`searchOutside_leftmost`).  This is so for every matcher, and
guards see the text in front of the origin.

The invariant of the search is that no hit that counts lies in front of the place it has come to.
-/
import InverseTemplate.Proofs.Anchor.Hit
import InverseTemplate.Proofs.Markdown.Order

namespace InverseTemplate

/-- A search from the origin passes over the offset: it lies strictly inside a block that began at
or after the origin. -/
def PassesOver (blocks : List Span) (origin offset : Nat) : Prop :=
  ∃ block ∈ blocks, origin ≤ block.start ∧ block.start < offset ∧ offset < block.stop

/-- A hit that counts in a search from the origin. -/
structure Counts (m : Matcher) (blocks : List Span) (t : Text) (origin : Nat) (hit : Span) :
    Prop where
  hits : m.Hits t hit
  le_start : origin ≤ hit.start
  not_passed : ¬ PassesOver blocks origin hit.start

/-- The first of the hits that count. -/
structure Leftmost (m : Matcher) (blocks : List Span) (t : Text) (origin : Nat) (hit : Span) : Prop
    extends Counts m blocks t origin hit where
  first : ∀ other, Counts m blocks t origin other → hit.start ≤ other.start

variable {m : Matcher} {blocks : List Span} {t : Text} {origin offset : Nat} {hit : Span}

theorem Leftmost.unique {hit' : Span} (h : Leftmost m blocks t origin hit)
    (h' : Leftmost m blocks t origin hit') : hit = hit' := by
  have hstart : hit.start = hit'.start :=
    Nat.le_antisymm (h.first hit' h'.toCounts) (h'.first hit h.toCounts)
  have htakes := h.hits.takes
  have htakes' := h'.hits.takes
  rw [← hstart, htakes, Option.some.injEq] at htakes'
  have hle := h.hits.start_le_stop
  have hle' := h'.hits.start_le_stop
  obtain ⟨start, stop⟩ := hit
  obtain ⟨start', stop'⟩ := hit'
  obtain rfl : start = start' := hstart
  have hstop : stop = stop' := by
    simp only at htakes' hle hle'
    omega
  rw [hstop]

/-! ## Where a search goes on -/

theorem skipTarget?_eq_none_iff :
    skipTarget? blocks offset origin = none ↔ ¬ PassesOver blocks origin offset := by
  simp only [skipTarget?, PassesOver, Option.map_eq_none_iff, List.find?_eq_none, Bool.and_eq_true,
    decide_eq_true_eq, not_exists, not_and, and_assoc]

theorem exists_of_skipTarget? {resume : Nat} (h : skipTarget? blocks offset origin = some resume) :
    ∃ block ∈ blocks, origin ≤ block.start ∧ block.start < offset ∧ offset < block.stop ∧
      block.stop = resume := by
  obtain ⟨block, hblock, hstop⟩ := Option.map_eq_some_iff.mp h
  have hin := List.find?_some hblock
  simp only [Bool.and_eq_true, decide_eq_true_eq] at hin
  exact ⟨block, List.mem_of_find?_eq_some hblock, hin.1.1, hin.1.2, hin.2, hstop⟩

/-- In blocks that lie one behind the other, none has to be asked from the first one on that begins
behind the offset. -/
theorem skipTarget?_takeWhile (h : Span.Ordered blocks) (offset origin : Nat) :
    skipTarget? (blocks.takeWhile fun block => block.start ≤ offset) offset origin =
      skipTarget? blocks offset origin := by
  induction blocks with
  | nil => rfl
  | cons block rest ih =>
      obtain ⟨hpos, hbehind, hrest⟩ := Span.ordered_cons_iff.mp h
      by_cases hle : block.start ≤ offset
      · have ih := ih hrest
        simp only [skipTarget?] at ih ⊢
        rw [List.takeWhile_cons_of_pos (by simpa using hle), List.find?_cons, List.find?_cons]
        split
        · rfl
        · exact ih
      · rw [List.takeWhile_cons_of_neg (by simpa using hle)]
        refine (skipTarget?_eq_none_iff.mpr ?_).symm
        rintro ⟨other, hother, -, hlt, -⟩
        rcases List.mem_cons.mp hother with rfl | hmem
        · exact hle (Nat.le_of_lt hlt)
        · have := hbehind other hmem
          omega

/-! ## The search -/

theorem Matcher.le_start_of_search (hle : offset ≤ t.length)
    (hsearch : m.search t offset = some hit)
    {other : Span} (hother : m.Hits t other) (hoffset : offset ≤ other.start) :
    hit.start ≤ other.start := by
  obtain ⟨-, -, hfirst⟩ := (Matcher.search_eq_some_iff hle).mp hsearch
  refine Nat.le_of_not_lt fun hlt => ?_
  exact hother.start_ne (hfirst other.start hoffset hlt) rfl

/-- A search that no hit that counts lies in front of answers with the leftmost of them. -/
theorem searchOn_leftmost (horigin : origin ≤ offset)
    (hfront : ∀ other, Counts m blocks t origin other → offset ≤ other.start) :
    (∀ hit, (searchOn m blocks t origin offset).hit = some hit → Leftmost m blocks t origin hit) ∧
      ((searchOn m blocks t origin offset).hit = none → ∀ hit, ¬ Counts m blocks t origin hit) := by
  fun_induction searchOn m blocks t origin offset with
  | case1 offset hle hsearch =>
      refine ⟨by simp, fun _ other hother => ?_⟩
      obtain ⟨found, hfound, -⟩ := Matcher.exists_search (hfront other hother)
        hother.hits.start_le_length hother.hits.takes
      rw [hsearch] at hfound
      cases hfound
  | case2 offset hle found hsearch hskip =>
      obtain ⟨hoffset, hhits, -⟩ := (Matcher.search_eq_some_iff hle).mp hsearch
      have hcounts : Counts m blocks t origin found :=
        ⟨hhits, Nat.le_trans horigin hoffset, skipTarget?_eq_none_iff.mp hskip⟩
      refine ⟨?_, by simp⟩
      rintro hit ⟨rfl⟩
      exact ⟨hcounts, fun other hother =>
        Matcher.le_start_of_search hle hsearch hother.hits (hfront other hother)⟩
  | case3 offset hle found hsearch resume hskip more ih =>
      obtain ⟨block, hblock, hbegins, hstart, hstop, rfl⟩ := exists_of_skipTarget? hskip
      refine ih (by omega) fun other hother => ?_
      -- what lies between the hit and the end of its block lies inside the block
      have hbehind := Matcher.le_start_of_search hle hsearch hother.hits (hfront other hother)
      refine Nat.le_of_not_lt fun hlt => hother.not_passed ?_
      exact ⟨block, hblock, hbegins, by omega, hlt⟩
  | case4 offset hlt =>
      refine ⟨by simp, fun _ other hother => hlt ?_⟩
      exact Nat.le_trans (hfront other hother) hother.hits.start_le_length

theorem searchOutside_eq_some_iff :
    (searchOutside m blocks t origin).hit = some hit ↔ Leftmost m blocks t origin hit := by
  obtain ⟨hsome, hnone⟩ := @searchOn_leftmost m blocks t origin origin
    (Nat.le_refl origin) fun other hother => hother.le_start
  constructor
  · exact hsome hit
  · intro h
    cases hfound : (searchOutside m blocks t origin).hit with
    | none => exact absurd h.toCounts (hnone hfound hit)
    | some found => rw [(hsome found hfound).unique h]

theorem searchOutside_eq_none_iff :
    (searchOutside m blocks t origin).hit = none ↔ ∀ hit, ¬ Counts m blocks t origin hit := by
  obtain ⟨hsome, hnone⟩ := @searchOn_leftmost m blocks t origin origin
    (Nat.le_refl origin) fun other hother => hother.le_start
  constructor
  · exact hnone
  · intro h
    cases hfound : (searchOutside m blocks t origin).hit with
    | none => rfl
    | some found => exact absurd (hsome found hfound).toCounts (h found)

/-- Around the fences of a text a search answers with the leftmost hit that counts, and with nothing
exactly if no hit counts; at every offset it may leave the fences behind the offset unasked. -/
theorem searchOutside_leftmost (m : Matcher) (t : Text) (origin : Nat) :
    (∀ hit, (searchOutside m (fences t) t origin).hit = some hit ↔
      Leftmost m (fences t) t origin hit) ∧
    ((searchOutside m (fences t) t origin).hit = none ↔
      ∀ hit, ¬ Counts m (fences t) t origin hit) ∧
    ∀ offset, skipTarget? ((fences t).takeWhile fun block => block.start ≤ offset) offset origin =
      skipTarget? (fences t) offset origin :=
  ⟨fun _ => searchOutside_eq_some_iff, searchOutside_eq_none_iff,
    fun offset => skipTarget?_takeWhile (ordered_fences t) offset origin⟩

end InverseTemplate
