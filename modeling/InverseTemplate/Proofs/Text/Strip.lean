/-
# Trimming and runs

What trimming takes away and what it leaves, stated from the outside: blanks on either side of a
text do not change what is left of it, what is left has no blank at either end, and a text that is
its own trimmed form can be surrounded by blanks and found again.

The second half is about the longest run of characters with a property at some place of a text.
Two facts carry everything that is said later about where a match ends: a place inside a run sees
the remainder of that run, and a run never reaches past a character without the property.
-/
import InverseTemplate.Text.Blank
import Mathlib.Data.List.TakeWhile

namespace InverseTemplate

namespace Text

-- declared anew, lest it be decided over all the characters that there are
instance (priority := high) decidableForallMem (p : Char → Prop) [DecidablePred p] (t : Text) :
    Decidable (∀ c ∈ t, p c) := List.decidableBAll p t

/-- Every character is a blank. -/
def AllBlank (t : Text) : Prop := ∀ c ∈ t, isBlank c = true

instance (t : Text) : Decidable (AllBlank t) :=
  inferInstanceAs (Decidable (∀ c ∈ t, isBlank c = true))

theorem AllBlank.append {a b : Text} (ha : AllBlank a) (hb : AllBlank b) : AllBlank (a ++ b) :=
  fun c hc => (List.mem_append.mp hc).elim (ha c) (hb c)

theorem AllBlank.eq_nil_of_append {b t r : Text} {c : Char} (hb : AllBlank b) (h : c :: r = b ++ t)
    (hc : isBlank c = false) : b = [] := by
  cases b with
  | nil => rfl
  | cons d u =>
      cases h
      rw [hb c (List.mem_cons_self ..)] at hc
      cases hc

/-! ## Trimming on the right -/

theorem stripRight_eq_nil_iff (t : Text) : stripRight t = [] ↔ AllBlank t := by
  induction t with
  | nil => simp [stripRight, AllBlank]
  | cons c r ih =>
      rw [stripRight]
      cases hs : stripRight r with
      | nil =>
          have hr : AllBlank r := ih.mp hs
          by_cases hc : isBlank c = true
          · simp [hc, AllBlank] at hr ⊢
            exact hr
          · simp [hc, AllBlank]
      | cons d s =>
          have hr : ¬ AllBlank r := fun h => by simp [ih.mpr h] at hs
          simp only [reduceCtorEq, false_iff]
          exact fun h => hr fun x hx => h x (List.mem_cons_of_mem _ hx)

theorem stripRight_append_of_allBlank (t : Text) {b : Text} (hb : AllBlank b) :
    stripRight (t ++ b) = stripRight t := by
  induction t with
  | nil => simpa [stripRight] using (stripRight_eq_nil_iff b).mpr hb
  | cons c r ih =>
      rw [List.cons_append, stripRight, stripRight, ih]

theorem stripRight_append_of_ne_nil (a : Text) {t : Text} (h : stripRight t ≠ []) :
    stripRight (a ++ t) = a ++ stripRight t := by
  induction a with
  | nil => rfl
  | cons c r ih =>
      rw [List.cons_append, stripRight, ih]
      cases hs : r ++ stripRight t with
      | nil => exact absurd (List.append_eq_nil_iff.mp hs).2 h
      | cons d s => simp [hs]

theorem isBlank_getLast_stripRight {t : Text} {c : Char} (h : (stripRight t).getLast? = some c) :
    isBlank c = false := by
  induction t with
  | nil => simp [stripRight] at h
  | cons d r ih =>
      rw [stripRight] at h
      cases hs : stripRight r with
      | nil =>
          rw [hs] at h
          by_cases hd : isBlank d = true
          · simp [hd] at h
          · simp [hd] at h
            subst h
            simpa using hd
      | cons e s =>
          rw [hs] at h ih
          exact ih (by simpa [List.getLast?_cons_cons] using h)

theorem stripRight_eq_self {t : Text} (h : ∀ c, t.getLast? = some c → isBlank c = false) :
    stripRight t = t := by
  induction t with
  | nil => rfl
  | cons d r ih =>
      rw [stripRight]
      cases r with
      | nil =>
          have hd : isBlank d = false := h d rfl
          simp [stripRight, hd]
      | cons e s =>
          rw [ih fun c hc => h c (by simpa [List.getLast?_cons_cons] using hc)]

/-! ## Trimming on both sides -/

theorem stripLeft_append_of_allBlank {b : Text} (hb : AllBlank b) (t : Text) :
    stripLeft (b ++ t) = stripLeft t := by
  unfold stripLeft
  exact List.dropWhile_append_of_pos hb

theorem allBlank_leadingBlanks (t : Text) : AllBlank (leadingBlanks t) :=
  fun _ hc => List.all_eq_true.mp List.all_takeWhile _ hc

theorem strip_eq_nil_iff (t : Text) : strip t = [] ↔ AllBlank t := by
  rw [strip, stripRight_eq_nil_iff]
  constructor
  · intro h c hc
    rw [← leadingBlanks_append_stripLeft t, List.mem_append] at hc
    rcases hc with hc | hc
    · exact allBlank_leadingBlanks t c hc
    · exact h c hc
  · exact fun h c hc => h c ((List.dropWhile_sublist _).subset hc)

theorem mem_of_mem_strip {t : Text} {c : Char} (h : c ∈ strip t) : c ∈ t :=
  (List.dropWhile_sublist _).subset ((stripRight_isPrefix (stripLeft t)).subset h)

theorem strip_append_append {a b : Text} (ha : AllBlank a) (hb : AllBlank b) (t : Text) :
    strip (a ++ (t ++ b)) = strip t := by
  rw [strip, stripLeft_append_of_allBlank ha, ← strip]
  by_cases ht : AllBlank t
  · have h : AllBlank (t ++ b) := fun c hc => (List.mem_append.mp hc).elim (ht c) (hb c)
    rw [(strip_eq_nil_iff _).mpr h, (strip_eq_nil_iff _).mpr ht]
  · have hne : stripLeft t ≠ [] := fun h0 => ht (by
      rw [← leadingBlanks_append_stripLeft t, h0, List.append_nil]
      exact allBlank_leadingBlanks t)
    have h : stripLeft (t ++ b) = stripLeft t ++ b := by
      unfold stripLeft at hne ⊢
      rw [List.dropWhile_append, if_neg (by simpa [List.isEmpty_iff] using hne)]
    rw [strip, h, stripRight_append_of_allBlank _ hb, strip]

theorem isBlank_head_of_strip_eq {t : Text} (h : strip t = t) {c : Char} {r : Text}
    (ht : t = c :: r) : isBlank c = false := by
  by_cases hc : isBlank c = true
  · have hlen := congrArg List.length h
    have h1 := (stripRight_isPrefix (stripLeft t)).length_le
    have h2 : (stripLeft t).length ≤ r.length := by
      rw [ht]
      unfold stripLeft
      rw [List.dropWhile_cons_of_pos hc]
      exact (List.dropWhile_sublist _).length_le
    rw [strip, ht] at hlen
    rw [ht] at h1 h2
    simp only [List.length_cons] at hlen
    omega
  · simpa using hc

theorem isBlank_getLast_of_strip_eq {t : Text} (h : strip t = t) {c : Char}
    (hc : t.getLast? = some c) : isBlank c = false :=
  isBlank_getLast_stripRight (t := stripLeft t) (by rw [← strip, h]; exact hc)

theorem strip_eq_self_of_forall {t : Text} (h : ∀ c ∈ t, isBlank c = false) : strip t = t := by
  have hleft : stripLeft t = t := by
    cases t with
    | nil => rfl
    | cons c r =>
        unfold stripLeft
        rw [List.dropWhile_cons_of_neg (by simp [h c (List.mem_cons_self ..)])]
  rw [strip, hleft]
  exact stripRight_eq_self fun c hc => h c (List.mem_of_getLast? hc)

theorem strip_strip (t : Text) : strip (strip t) = strip t := by
  have h : stripLeft (strip t) = strip t := by
    cases hs : strip t with
    | nil => rfl
    | cons c r =>
        have hp := stripRight_isPrefix (stripLeft t)
        rw [← strip, hs] at hp
        obtain ⟨s, hs'⟩ := hp
        have hc : isBlank c = false := by
          have := List.head?_dropWhile_not isBlank t
          unfold stripLeft at hs'
          rw [← hs'] at this
          simpa using this
        rw [stripLeft, List.dropWhile_cons_of_neg (by simp [hc])]
  show stripRight (stripLeft (strip t)) = strip t
  rw [h]
  exact stripRight_eq_self fun c hc => isBlank_getLast_stripRight (t := stripLeft t) hc

/-- A text that is not blank is its leading blanks, what is left of it, and its trailing
blanks. -/
theorem leadingBlanks_append_strip_append_trailingBlanks {t : Text} (h : strip t ≠ []) :
    leadingBlanks t ++ (strip t ++ trailingBlanks t) = t := by
  have hr : stripRight t = leadingBlanks t ++ strip t := by
    rw [strip] at h ⊢
    conv => lhs; rw [← leadingBlanks_append_stripLeft t]
    exact stripRight_append_of_ne_nil _ h
  rw [← List.append_assoc, ← hr]
  exact stripRight_append_trailingBlanks t

theorem allBlank_trailingBlanks (t : Text) : AllBlank (trailingBlanks t) := by
  induction t with
  | nil => simp [trailingBlanks, AllBlank]
  | cons c r ih =>
      unfold trailingBlanks at *
      rw [stripRight]
      cases hs : stripRight r with
      | nil =>
          rw [hs] at ih
          by_cases hc : isBlank c = true
          · simp only [hc, if_true, List.length_nil, List.drop_zero]
            intro x hx
            rcases List.mem_cons.mp hx with rfl | hx
            · exact hc
            · exact ih x (by simpa using hx)
          · simpa [hc] using ih
      | cons d s =>
          rw [hs] at ih
          simpa using ih

/-! ## Runs -/

variable {p : Char → Bool}

theorem head?_dropWhile_eq_false {t : Text} {c : Char} (h : (t.dropWhile p).head? = some c) :
    p c = false := by
  have := List.head?_dropWhile_not p t
  rw [h] at this
  simpa using this

theorem takeWhile_append_of_stop {a b : Text} (ha : ∀ c ∈ a, p c = true)
    (hb : ∀ c, b.head? = some c → p c = false) :
    (a ++ b).takeWhile p = a ∧ (a ++ b).dropWhile p = b := by
  rw [List.takeWhile_append_of_pos ha, List.dropWhile_append_of_pos ha]
  cases b with
  | nil => simp
  | cons c r =>
      have hc := hb c rfl
      rw [List.takeWhile_cons_of_neg (by simp [hc]), List.dropWhile_cons_of_neg (by simp [hc])]
      simp

theorem takeWhile_eq_replicate (c : Char) (t : Text) :
    t.takeWhile (· = c) = List.replicate (t.takeWhile (· = c)).length c := by
  rw [List.eq_replicate_iff]
  exact ⟨rfl, fun d hd => by simpa using List.mem_takeWhile_imp hd⟩

theorem replicate_append_dropWhile (c : Char) (t : Text) :
    List.replicate (t.takeWhile (· = c)).length c ++ t.dropWhile (· = c) = t := by
  rw [← takeWhile_eq_replicate, List.takeWhile_append_dropWhile]

theorem head?_dropWhile_ne (c : Char) (t : Text) : (t.dropWhile (· = c)).head? ≠ some c := by
  intro h
  simpa using head?_dropWhile_eq_false h

theorem findIdx?_eq_some_iff_append {mark : Char} {t : Text} {n : Nat} :
    t.findIdx? (· = mark) = some n ↔
      ∃ front behind, t = front ++ mark :: behind ∧ mark ∉ front ∧ n = front.length := by
  induction t generalizing n with
  | nil => simp
  | cons c r ih =>
      rw [List.findIdx?_cons]
      by_cases hc : c = mark
      · subst hc
        simp only [decide_true, if_true, Option.some.injEq]
        constructor
        · rintro rfl
          exact ⟨[], r, rfl, List.not_mem_nil, rfl⟩
        · rintro ⟨front, behind, heq, hmem, rfl⟩
          cases front with
          | nil => rfl
          | cons d front =>
              cases heq
              exact absurd (List.mem_cons_self ..) hmem
      · simp only [decide_eq_true_eq, if_neg hc, Option.map_eq_some_iff]
        constructor
        · rintro ⟨m, hm, rfl⟩
          obtain ⟨front, behind, rfl, hmem, rfl⟩ := ih.mp hm
          exact ⟨c :: front, behind, rfl, by simp [hmem, Ne.symm hc], rfl⟩
        · rintro ⟨front, behind, heq, hmem, rfl⟩
          cases front with
          | nil =>
              cases heq
              exact absurd rfl hc
          | cons d front =>
              cases heq
              have hrest : mark ∉ front := fun h => hmem (List.mem_cons_of_mem _ h)
              exact ⟨_, ih.mpr ⟨front, behind, rfl, hrest, rfl⟩, rfl⟩

theorem prefix_of_prefix_append {front a b : Text} (h : front <+: a ++ b)
    (hb : ∀ c, b.head? = some c → c ∉ front) : front <+: a := by
  rcases List.prefix_or_prefix_of_prefix h (List.prefix_append a b) with hin | ⟨u, rfl⟩
  · exact hin
  · cases u with
    | nil => exact ⟨[], by simp⟩
    | cons c u =>
        obtain ⟨r, rfl⟩ := (List.prefix_append_right_inj a).mp h
        exact absurd (by simp) (hb c rfl)

theorem length_takeWhile_drop {t : Text} {k : Nat} (h : k ≤ (t.takeWhile p).length) :
    ((t.drop k).takeWhile p).length = (t.takeWhile p).length - k := by
  induction t generalizing k with
  | nil => simp
  | cons c r ih =>
      cases k with
      | zero => rfl
      | succ k =>
          by_cases hc : p c = true
          · simp only [List.takeWhile_cons_of_pos hc, List.length_cons, List.drop_succ_cons] at h ⊢
            rw [ih (by omega)]
            omega
          · simp [List.takeWhile_cons_of_neg hc] at h

theorem add_le_of_forall_take {t : Text} {a n k : Nat} {c : Char}
    (h : ∀ d ∈ (t.drop a).take n, p d = true) (hk : t[k]? = some c) (hc : p c = false)
    (ha : a ≤ k) : a + n ≤ k := by
  by_cases hn : k < a + n
  · have hmem : c ∈ (t.drop a).take n := by
      rw [List.mem_iff_getElem?]
      refine ⟨k - a, ?_⟩
      rw [List.getElem?_take, if_pos (by omega), List.getElem?_drop]
      rwa [show a + (k - a) = k by omega]
    rw [h c hmem] at hc
    exact absurd hc (by simp)
  · omega

end Text

end InverseTemplate
