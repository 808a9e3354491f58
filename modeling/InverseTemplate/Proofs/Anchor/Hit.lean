/-
# Hits and the leftmost one

A search walks forward and asks the matcher at every place.  Here the walk is forgotten: what a
matcher takes at an offset is a property of the text and the offset alone, and a search answers
with the leftmost span that has it.  Everything that is proved about scans rests on these two
readings, `search_eq_some_iff` for what was found and `exists_search` for the fact that something
is.
-/
import InverseTemplate.Anchor.Search
import InverseTemplate.Proofs.Text.Strip

namespace InverseTemplate

/-- The character in front of an offset. -/
def Text.before (t : Text) (offset : Nat) : Option Char :=
  if offset = 0 then none else t[offset - 1]?

theorem Text.before_append (a b : Text) : (a ++ b).before a.length = a.getLast? := by
  unfold before
  by_cases ha : a = []
  · simp [ha]
  · have hpos : 0 < a.length := List.length_pos_iff.mpr ha
    rw [if_neg (by omega), List.getElem?_append_left (by omega), List.getLast?_eq_getElem?]

namespace Matcher

variable {m : Matcher} {t : Text}

/-- How many characters the matcher takes at an offset of a text. -/
def lengthAt? (m : Matcher) (t : Text) (offset : Nat) : Option Nat :=
  m (t.before offset) (t.drop offset)

/-- The span is what the matcher takes where the span begins. -/
structure Hits (m : Matcher) (t : Text) (s : Span) : Prop where
  start_le_stop : s.start ≤ s.stop
  start_le_length : s.start ≤ t.length
  takes : m.lengthAt? t s.start = some (s.stop - s.start)

/-- Between two halves of a text a matcher sees the last character of the first and all of the
second. -/
theorem lengthAt?_append (m : Matcher) (a b : Text) :
    m.lengthAt? (a ++ b) a.length = m a.getLast? b := by
  rw [lengthAt?, Text.before_append, List.drop_left]

/-! ## Single steps of a search -/

theorem search_of_lengthAt? {o n : Nat} (h : m.lengthAt? t o = some n) :
    m.search t o = some ⟨o, o + n⟩ := by
  unfold search
  unfold lengthAt? Text.before at h
  cases hd : t.drop o with
  | nil => rw [hd] at h; simp [searchFrom, h]
  | cons c r => rw [hd] at h; simp [searchFrom, h]

theorem search_succ {o : Nat} (ho : o < t.length) (h : m.lengthAt? t o = none) :
    m.search t o = m.search t (o + 1) := by
  unfold search
  unfold lengthAt? Text.before at h
  rw [List.drop_eq_getElem_cons ho] at h ⊢
  simp only [searchFrom, h, Nat.succ_ne_zero, if_false, Nat.add_sub_cancel,
    List.getElem?_eq_getElem ho]

theorem search_length (h : m.lengthAt? t t.length = none) : m.search t t.length = none := by
  unfold search
  unfold lengthAt? Text.before at h
  rw [List.drop_length] at h ⊢
  rw [searchFrom, h, Option.map_none]

/-! ## The leftmost hit -/

theorem eq_iff_of_lengthAt? {o n : Nat} (ho : o ≤ t.length) (hm : m.lengthAt? t o = some n)
    {hit : Span} : (⟨o, o + n⟩ : Span) = hit ↔
      o ≤ hit.start ∧ m.Hits t hit ∧ ∀ p, o ≤ p → p < hit.start → m.lengthAt? t p = none := by
  constructor
  · rintro rfl
    refine ⟨Nat.le_refl _, ⟨Nat.le_add_right _ _, ho, by simpa using hm⟩, ?_⟩
    intro p h1 h2
    exact absurd h2 (Nat.not_lt.mpr h1)
  · rintro ⟨h1, h2, h3⟩
    have hs : hit.start = o := by
      by_cases hlt : o < hit.start
      · have := h3 o (Nat.le_refl _) hlt
        rw [hm] at this
        simp at this
      · omega
    have h4 := h2.takes
    have h5 := h2.start_le_stop
    rw [hs, hm, Option.some.injEq] at h4
    cases hit
    simp only [Span.mk.injEq] at *
    omega

theorem Hits.start_ne {o : Nat} {hit : Span} (h : m.Hits t hit) (hm : m.lengthAt? t o = none) :
    hit.start ≠ o := by
  intro heq
  have htakes := h.takes
  rw [heq, hm] at htakes
  simp at htakes

/-- What a search finds is a hit, and nothing is taken between the offset and it. -/
theorem search_eq_some_iff {o : Nat} (ho : o ≤ t.length) {hit : Span} :
    m.search t o = some hit ↔
      o ≤ hit.start ∧ m.Hits t hit ∧ ∀ p, o ≤ p → p < hit.start → m.lengthAt? t p = none := by
  induction hd : t.length - o generalizing o with
  | zero =>
      obtain rfl : o = t.length := by omega
      cases hm : m.lengthAt? t t.length with
      | some n =>
          rw [search_of_lengthAt? hm, Option.some.injEq]
          exact eq_iff_of_lengthAt? ho hm
      | none =>
          rw [search_length hm]
          simp only [reduceCtorEq, false_iff]
          rintro ⟨h1, h2, -⟩
          exact h2.start_ne hm (Nat.le_antisymm h2.start_le_length h1)
  | succ d ih =>
      cases hm : m.lengthAt? t o with
      | some n =>
          rw [search_of_lengthAt? hm, Option.some.injEq]
          exact eq_iff_of_lengthAt? ho hm
      | none =>
          rw [search_succ (by omega) hm, ih (by omega) (by omega)]
          constructor
          · rintro ⟨h1, h2, h3⟩
            refine ⟨by omega, h2, fun p hp1 hp2 => ?_⟩
            by_cases hpo : p = o
            · rw [hpo, hm]
            · exact h3 p (by omega) hp2
          · rintro ⟨h1, h2, h3⟩
            have hne := h2.start_ne hm
            exact ⟨by omega, h2, fun p hp1 hp2 => h3 p (by omega) hp2⟩

theorem exists_search {o p n : Nat} (hop : o ≤ p) (hp : p ≤ t.length)
    (h : m.lengthAt? t p = some n) :
    ∃ hit, m.search t o = some hit ∧ hit.start ≤ p := by
  induction hd : p - o generalizing o with
  | zero =>
      obtain rfl : o = p := by omega
      exact ⟨_, search_of_lengthAt? h, Nat.le_refl _⟩
  | succ d ih =>
      cases hm : m.lengthAt? t o with
      | some k => exact ⟨_, search_of_lengthAt? hm, hop⟩
      | none =>
          rw [search_succ (by omega) hm]
          exact ih (by omega) (by omega)

theorem search_eq_of_first {o s n : Nat} (hos : o ≤ s) (hs : s ≤ t.length)
    (h : m.lengthAt? t s = some n)
    (hfirst : ∀ p, o ≤ p → p < s → m.lengthAt? t p = none) :
    m.search t o = some ⟨s, s + n⟩ :=
  (search_eq_some_iff (by omega)).mpr
    ⟨hos, ⟨Nat.le_add_right _ _, hs, by simpa using h⟩, hfirst⟩

end Matcher

/-- In a text without fenced code blocks nothing is passed over. -/
theorem hit_searchOutside_nil (m : Matcher) {t : Text} {o : Nat} (ho : o ≤ t.length) :
    (searchOutside m [] t o).hit = m.search t o := by
  unfold searchOutside
  rw [searchOn, if_pos ho]
  split
  · next h => rw [h]
  · next h =>
      rw [h]
      split
      · rfl
      · next hs => simp [skipTarget?] at hs

/-! ## Where the content goes on -/

theorem contentStart_mono (t : Text) {a b : Nat} (h : a ≤ b) :
    contentStart t a ≤ contentStart t b := by
  unfold contentStart
  by_cases hb : b ≤ a + ((t.drop a).takeWhile Text.isBlank).length
  · have hrun := Text.length_takeWhile_drop (p := Text.isBlank) (t := t.drop a) (k := b - a)
      (by omega)
    rw [List.drop_drop, show a + (b - a) = b by omega] at hrun
    omega
  · omega

end InverseTemplate
