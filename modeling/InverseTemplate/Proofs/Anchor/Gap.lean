/-
# What gaps take

A gap takes blanks and nothing else, and it takes as many of them as its shape allows.  Both
together make gaps comparable: a match that begins inside another match of the same gap ends at
the same place, so of two matches the one that begins earlier never ends later.

For a paragraph this is a statement about repetition.  Wherever one stands inside a stretch of
empty lines, between a carriage return and its line feed included, as many of them are left as
the stretch has (`repeated_blankLine?_drop`).
-/
import InverseTemplate.Anchor.Match
import InverseTemplate.Proofs.Text.PlainBlanks

namespace InverseTemplate

/-- The text begins with `n` blanks, or more. -/
def Text.BlankFor (t : Text) (n : Nat) : Prop := n ≤ t.length ∧ Text.AllBlank (t.take n)

namespace Text.BlankFor

theorem zero (t : Text) : BlankFor t 0 := ⟨Nat.zero_le _, by simp [AllBlank]⟩

theorem add {t : Text} {a b : Nat} (ha : BlankFor t a) (hb : BlankFor (t.drop a) b) :
    BlankFor t (a + b) := by
  refine ⟨?_, ?_⟩
  · have h1 := ha.1
    have h2 := hb.1
    rw [List.length_drop] at h2
    omega
  · rw [List.take_add]
    intro c hc
    exact (List.mem_append.mp hc).elim (ha.2 c) (hb.2 c)

end Text.BlankFor

/-! ## Blanks only -/

theorem take_length_takeWhile (p : Char → Bool) (t : Text) :
    t.take (t.takeWhile p).length = t.takeWhile p :=
  (List.prefix_iff_eq_take.mp (List.takeWhile_prefix p)).symm

theorem length_takeWhile_le (p : Char → Bool) (t : Text) : (t.takeWhile p).length ≤ t.length :=
  (List.takeWhile_prefix p).length_le

theorem blankFor_horizontalLength (t : Text) : t.BlankFor (horizontalLength t) := by
  refine ⟨length_takeWhile_le _ t, ?_⟩
  intro c hc
  rw [horizontalLength, take_length_takeWhile] at hc
  exact Text.isBlank_of_isHorizontal (List.all_eq_true.mp List.all_takeWhile c hc)

theorem blankFor_of_lineFeed? {t : Text} {n : Nat} (h : lineFeed? t = some n) :
    t.BlankFor n ∧ 0 < n := by
  unfold lineFeed? at h
  split at h
  · cases h
    exact ⟨⟨by simp, by simp [Text.AllBlank]; decide⟩, by omega⟩
  · cases h
    exact ⟨⟨by simp, by simp [Text.AllBlank]; decide⟩, by omega⟩
  · simp at h

theorem blankFor_of_blankLine? {t : Text} {n : Nat} (h : blankLine? t = some n) :
    t.BlankFor n ∧ 0 < n := by
  rw [blankLine?, Option.map_eq_some_iff] at h
  obtain ⟨l, hl, rfl⟩ := h
  obtain ⟨h1, h2⟩ := blankFor_of_lineFeed? hl
  exact ⟨(blankFor_horizontalLength t).add h1, by omega⟩

theorem blankFor_of_indentedLineFeed? {t : Text} {n : Nat} (h : indentedLineFeed? t = some n) :
    t.BlankFor n ∧ 0 < n := by
  rw [indentedLineFeed?, Option.map_eq_some_iff] at h
  obtain ⟨l, hl, rfl⟩ := h
  obtain ⟨h1, h2⟩ := blankFor_of_lineFeed? hl
  exact ⟨h1.add (blankFor_horizontalLength _), by omega⟩

theorem repeated_eq_add {unit : Text → Option Nat} {t : Text} {n : Nat} (h : unit t = some n)
    (hn : 0 < n) (hlen : n ≤ t.length) : repeated unit t = n + repeated unit (t.drop n) := by
  cases t with
  | nil => simp at hlen; omega
  | cons c r =>
      obtain ⟨k, rfl⟩ : ∃ k, n = k + 1 := ⟨n - 1, by omega⟩
      rw [repeated, h]

theorem repeated_eq_zero {unit : Text → Option Nat} {t : Text} (h : unit t = none) :
    repeated unit t = 0 := by
  cases t with
  | nil => rw [repeated]
  | cons c r => rw [repeated, h]

theorem blankFor_repeated {unit : Text → Option Nat}
    (hunit : ∀ t n, unit t = some n → t.BlankFor n ∧ 0 < n) (t : Text) :
    t.BlankFor (repeated unit t) := by
  induction hl : t.length using Nat.strongRecOn generalizing t with
  | ind l ih =>
      cases h : unit t with
      | none => rw [repeated_eq_zero h]; exact Text.BlankFor.zero t
      | some n =>
          obtain ⟨h1, h2⟩ := hunit t n h
          rw [repeated_eq_add h h2 h1.1]
          refine h1.add (ih (t.length - n) ?_ (t.drop n) List.length_drop)
          have := h1.1
          omega

theorem blankFor_of_length? {gap : Gap} {t : Text} {n : Nat} (h : gap.length? t = some n) :
    t.BlankFor n ∧ 0 < n := by
  cases gap with
  | line => exact blankFor_of_blankLine? h
  | spaces =>
      simp only [Gap.length?] at h
      split at h
      · simp at h
      · cases h
        exact ⟨blankFor_horizontalLength t, by omega⟩
  | paragraph =>
      simp only [Gap.length?] at h
      split at h
      · next k hk =>
          obtain ⟨h1, h2⟩ := blankFor_of_blankLine? hk
          split at h
          · simp at h
          · cases h
            exact ⟨h1.add (blankFor_repeated (fun _ _ => blankFor_of_blankLine?) _), by omega⟩
      · simp at h

/-! ## A match inside a match -/

theorem horizontalLength_drop {t : Text} {k : Nat} (h : k ≤ horizontalLength t) :
    horizontalLength (t.drop k) = horizontalLength t - k :=
  Text.length_takeWhile_drop h

theorem blankLine?_drop {t : Text} {n k : Nat} (h : blankLine? t = some n) (hk : k < n) :
    blankLine? (t.drop k) = some (n - k) := by
  rw [blankLine?, Option.map_eq_some_iff] at h
  obtain ⟨l, hl, rfl⟩ := h
  by_cases hh : k ≤ horizontalLength t
  · rw [blankLine?, horizontalLength_drop hh, List.drop_drop,
      show k + (horizontalLength t - k) = horizontalLength t by omega, hl, Option.map_some]
    congr 1
    omega
  · -- only between a carriage return and its line feed is there such a place
    unfold lineFeed? at hl
    split at hl
    · cases hl
      omega
    · next r hr =>
        cases hl
        obtain rfl : k = horizontalLength t + 1 := by omega
        have hd : t.drop (horizontalLength t + 1) = '\n' :: r := by
          rw [← List.drop_drop, hr, List.drop_one, List.tail_cons]
        have hz : horizontalLength ('\n' :: r) = 0 := by
          unfold horizontalLength
          rw [List.takeWhile_cons_of_neg (by decide), List.length_nil]
        rw [hd, blankLine?, hz, List.drop_zero, lineFeed?, Option.map_some]
        congr 1
        omega
    · simp at hl

theorem repeated_blankLine?_drop {t : Text} {k : Nat} (h : k ≤ repeated blankLine? t) :
    repeated blankLine? (t.drop k) = repeated blankLine? t - k := by
  induction hl : t.length using Nat.strongRecOn generalizing t k with
  | ind l ih =>
      cases hb : blankLine? t with
      | none =>
          rw [repeated_eq_zero hb] at h ⊢
          obtain rfl : k = 0 := by omega
          rw [List.drop_zero, repeated_eq_zero hb]
      | some n =>
          obtain ⟨h1, h2⟩ := blankFor_of_blankLine? hb
          have hlen := h1.1
          have hrep := repeated_eq_add hb h2 hlen
          by_cases hkn : k < n
          · have hd := blankLine?_drop hb hkn
            rw [repeated_eq_add hd (by omega) (by rw [List.length_drop]; omega), List.drop_drop,
              show k + (n - k) = n by omega]
            omega
          · have hrest := ih (t.length - n) (by omega) (t := t.drop n) (k := k - n) (by omega)
              List.length_drop
            rw [List.drop_drop, show n + (k - n) = k by omega] at hrest
            omega

theorem eq_repeated_of_paragraph {t : Text} {n : Nat}
    (h : Gap.length? .paragraph t = some n) : n = repeated blankLine? t := by
  simp only [Gap.length?] at h
  split at h
  · next k hk =>
      obtain ⟨h1, h2⟩ := blankFor_of_blankLine? hk
      split at h
      · simp at h
      · cases h
        exact (repeated_eq_add hk h2 h1.1).symm
  · simp at h

theorem Gap.le_add_of_length?_drop {gap : Gap} {t : Text} {n k n' : Nat}
    (h : gap.length? t = some n) (hk : k < n) (h' : gap.length? (t.drop k) = some n') :
    n ≤ k + n' := by
  cases gap with
  | line =>
      have hd := blankLine?_drop h hk
      have heq : some n' = some (n - k) := h'.symm.trans hd
      rw [Option.some.injEq] at heq
      omega
  | spaces =>
      simp only [Gap.length?] at h h'
      split at h
      · simp at h
      · cases h
        rw [horizontalLength_drop (by omega)] at h'
        split at h'
        · simp at h'
        · cases h'
          omega
  | paragraph =>
      have h1 := eq_repeated_of_paragraph h
      have h2 := eq_repeated_of_paragraph h'
      rw [repeated_blankLine?_drop (by omega)] at h2
      omega

/-! ## How a match ends -/

theorem take_of_lineFeed? {t : Text} {n : Nat} (h : lineFeed? t = some n) :
    ∃ a, t.take n = a ++ ['\n'] := by
  unfold lineFeed? at h
  split at h
  · cases h
    exact ⟨[], rfl⟩
  · cases h
    exact ⟨['\r'], rfl⟩
  · simp at h

theorem take_of_blankLine? {t : Text} {n : Nat} (h : blankLine? t = some n) :
    ∃ a, t.take n = a ++ ['\n'] := by
  rw [blankLine?, Option.map_eq_some_iff] at h
  obtain ⟨l, hl, rfl⟩ := h
  obtain ⟨a, ha⟩ := take_of_lineFeed? hl
  exact ⟨t.take (horizontalLength t) ++ a, by rw [List.take_add, ha, List.append_assoc]⟩

theorem take_repeated_blankLine? {t : Text} (h : repeated blankLine? t ≠ 0) :
    ∃ a, t.take (repeated blankLine? t) = a ++ ['\n'] := by
  induction hl : t.length using Nat.strongRecOn generalizing t with
  | ind l ih =>
      cases hb : blankLine? t with
      | none => exact absurd (repeated_eq_zero hb) h
      | some n =>
          obtain ⟨h1, h2⟩ := blankFor_of_blankLine? hb
          have hlen := h1.1
          obtain ⟨a, ha⟩ := take_of_blankLine? hb
          rw [repeated_eq_add hb h2 hlen, List.take_add]
          by_cases hz : repeated blankLine? (t.drop n) = 0
          · exact ⟨a, by rw [hz, List.take_zero, List.append_nil, ha]⟩
          · obtain ⟨a', ha'⟩ := ih (t.length - n) (by omega) hz List.length_drop
            exact ⟨t.take n ++ a', by rw [ha', List.append_assoc]⟩

/-- Spaces take no line feed, and what another gap takes ends with one. -/
theorem Gap.take_of_length? {gap : Gap} {t : Text} {n : Nat} (h : gap.length? t = some n) :
    (gap = .spaces ∧ Text.Horizontal (t.take n)) ∨ ∃ a, t.take n = a ++ ['\n'] := by
  cases gap with
  | line => exact .inr (take_of_blankLine? h)
  | spaces =>
      refine .inl ⟨rfl, ?_⟩
      simp only [Gap.length?] at h
      split at h
      · simp at h
      · cases h
        intro c hc
        rw [horizontalLength, take_length_takeWhile] at hc
        exact List.mem_takeWhile_imp hc
  | paragraph =>
      have hn := eq_repeated_of_paragraph h
      have hpos := (blankFor_of_length? h).2
      rw [hn]
      exact .inr (take_repeated_blankLine? (by omega))

end InverseTemplate
