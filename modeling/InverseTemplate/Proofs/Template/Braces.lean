/-
# Braces that belong together

A group of braces is an opening brace, a text in which every brace has its partner, and a closing
brace.  `Balanced` is the grammar of what stands inside.  Counting finds the end of a group: the
brace that brings the count down is the first one that has no partner in the text before it.

The same is said by how deep a text leads into groups (`braceDepth`): a text is balanced if it comes
back to the level it began at and never below it (`balanced_iff_closes`), and a group ends where it
first comes back (`isGroup_iff_balanced`).  So the count stops exactly behind a balanced text
(`braceLength?_zero_eq_some_iff`).
-/
import InverseTemplate.Template.Tag

namespace InverseTemplate

/-- Every brace of the text has its partner in it. -/
inductive Balanced : Text → Prop
  | nil : Balanced []
  | plain {c : Char} {rest : Text} : c ≠ '\x7b' → c ≠ '\x7d' → Balanced rest → Balanced (c :: rest)
  | group {inner rest : Text} : Balanced inner → Balanced rest →
      Balanced ('\x7b' :: (inner ++ '\x7d' :: rest))

/-- The count comes to `n` from the brace on that closes the innermost group, with `rest` behind
that brace and `depth` more groups open around it. -/
def CountsOn (depth : Nat) (rest : Text) (n : Nat) : Prop :=
  match depth with
  | 0 => n = 0
  | outer + 1 => ∃ m, braceLength? outer rest = some m ∧ n = m + 1

theorem exists_balanced_of_braceLength? {depth n : Nat} {t : Text}
    (h : braceLength? depth t = some n) :
    ∃ inner rest k, Balanced inner ∧ t = inner ++ '\x7d' :: rest ∧ n = inner.length + k ∧
      CountsOn depth rest k := by
  induction hl : t.length using Nat.strongRecOn generalizing depth n t with
  | ind l ih =>
      cases t with
      | nil => simp [braceLength?] at h
      | cons c r =>
          unfold braceLength? at h
          rw [List.length_cons] at hl
          split at h
          · next hopen =>
              -- the group that opens here closes first, and the innermost one somewhere behind it
              obtain ⟨n, hn, rfl⟩ := Option.map_eq_some_iff.mp h
              obtain ⟨inner, rest, _, hinner, rfl, rfl, m, hm, rfl⟩ := ih _ (by omega) hn rfl
              rw [List.length_append, List.length_cons] at hl
              obtain ⟨inner', rest', k, hinner', rfl, rfl, hk⟩ := ih _ (by omega) hm rfl
              refine ⟨c :: (inner ++ '\x7d' :: inner'), rest', k, ?_, by simp, ?_, hk⟩
              · rw [hopen]
                exact .group hinner hinner'
              · simp only [List.length_cons, List.length_append]
                omega
          · next hopen =>
              split at h
              · next hclose =>
                  refine ⟨[], r, n, .nil, by simp [hclose], by simp, ?_⟩
                  cases depth with
                  | zero => exact (Option.some.inj h).symm
                  | succ outer =>
                      obtain ⟨m, hm, rfl⟩ := Option.map_eq_some_iff.mp h
                      exact ⟨m, hm, rfl⟩
              · next hclose =>
                  obtain ⟨n, hn, rfl⟩ := Option.map_eq_some_iff.mp h
                  obtain ⟨inner, rest, k, hinner, rfl, rfl, hk⟩ := ih _ (by omega) hn rfl
                  refine ⟨c :: inner, rest, k, .plain hopen hclose hinner, rfl, ?_, hk⟩
                  rw [List.length_cons]
                  omega

theorem exists_balanced {n : Nat} {t : Text} (h : braceLength? 0 t = some n) :
    ∃ inner rest, Balanced inner ∧ t = inner ++ '\x7d' :: rest ∧ n = inner.length := by
  obtain ⟨inner, rest, k, hinner, ht, hn, hk⟩ := exists_balanced_of_braceLength? h
  have hk : k = 0 := hk
  exact ⟨inner, rest, hinner, ht, by rw [hn, hk, Nat.add_zero]⟩

/-! ## Depth -/

/-- How many more groups are open behind a text than in front of it. -/
def braceDepth : Text → Int
  | [] => 0
  | c :: r => (if c = '\x7b' then 1 else if c = '\x7d' then -1 else 0) + braceDepth r

@[simp] theorem braceDepth_nil : braceDepth [] = 0 := rfl

@[simp] theorem braceDepth_open (r : Text) : braceDepth ('\x7b' :: r) = 1 + braceDepth r := rfl

@[simp] theorem braceDepth_close (r : Text) : braceDepth ('\x7d' :: r) = -1 + braceDepth r := rfl

theorem braceDepth_plain {c : Char} (hopen : c ≠ '\x7b') (hclose : c ≠ '\x7d') (r : Text) :
    braceDepth (c :: r) = braceDepth r := by
  simp [braceDepth, hopen, hclose]

@[simp] theorem braceDepth_append (a b : Text) :
    braceDepth (a ++ b) = braceDepth a + braceDepth b := by
  induction a with
  | nil => simp
  | cons c r ih =>
      simp only [List.cons_append, braceDepth, ih]
      omega

/-- Of `depth` groups that are open in front of the text each is closed in it, and no other one. -/
def Closes (depth : Nat) (t : Text) : Prop :=
  braceDepth t + depth = 0 ∧ ∀ p, p <+: t → 0 ≤ braceDepth p + depth

theorem closes_nil_iff {depth : Nat} : Closes depth [] ↔ depth = 0 := by
  constructor
  · intro h
    have := h.1
    simp only [braceDepth_nil] at this
    omega
  · rintro rfl
    refine ⟨rfl, ?_⟩
    intro p hp
    rw [List.prefix_nil.mp hp]
    simp

theorem forall_prefix_cons_iff {P : Text → Prop} {c : Char} {r : Text} :
    (∀ p, p <+: c :: r → P p) ↔ P [] ∧ ∀ p, p <+: r → P (c :: p) := by
  constructor
  · intro h
    exact ⟨h [] List.nil_prefix, fun p hp => h (c :: p) (List.cons_prefix_cons.mpr ⟨rfl, hp⟩)⟩
  · rintro ⟨hnil, hcons⟩ p hp
    rcases List.prefix_cons_iff.mp hp with rfl | ⟨q, rfl, hq⟩
    · exact hnil
    · exact hcons q hq

theorem closes_open_iff {depth : Nat} {r : Text} :
    Closes depth ('\x7b' :: r) ↔ Closes (depth + 1) r := by
  simp only [Closes, forall_prefix_cons_iff, braceDepth_nil, braceDepth_open]
  constructor
  · rintro ⟨hsum, -, hall⟩
    refine ⟨by omega, ?_⟩
    intro p hp
    have := hall p hp
    omega
  · rintro ⟨hsum, hall⟩
    refine ⟨by omega, by omega, ?_⟩
    intro p hp
    have := hall p hp
    omega

theorem closes_close_iff {depth : Nat} {r : Text} :
    Closes depth ('\x7d' :: r) ↔ ∃ outer, depth = outer + 1 ∧ Closes outer r := by
  simp only [Closes, forall_prefix_cons_iff, braceDepth_nil, braceDepth_close]
  constructor
  · rintro ⟨hsum, -, hall⟩
    have hfirst := hall [] List.nil_prefix
    rw [braceDepth_nil] at hfirst
    refine ⟨depth - 1, by omega, by omega, ?_⟩
    intro p hp
    have := hall p hp
    omega
  · rintro ⟨outer, rfl, hsum, hall⟩
    refine ⟨by omega, by omega, ?_⟩
    intro p hp
    have := hall p hp
    omega

theorem closes_plain_iff {depth : Nat} {c : Char} (hopen : c ≠ '\x7b') (hclose : c ≠ '\x7d')
    {r : Text} : Closes depth (c :: r) ↔ Closes depth r := by
  simp only [Closes, forall_prefix_cons_iff, braceDepth_plain hopen hclose, braceDepth_nil]
  constructor
  · rintro ⟨hsum, -, hall⟩
    exact ⟨hsum, hall⟩
  · rintro ⟨hsum, hall⟩
    exact ⟨hsum, by omega, hall⟩

theorem Closes.append {depth : Nat} {a b : Text} (ha : Closes 0 a) (hb : Closes depth b) :
    Closes depth (a ++ b) := by
  obtain ⟨hasum, haall⟩ := ha
  obtain ⟨hbsum, hball⟩ := hb
  refine ⟨by rw [braceDepth_append]; omega, ?_⟩
  intro p hp
  rcases List.prefix_or_prefix_of_prefix hp (List.prefix_append a b) with hpa | ⟨q, rfl⟩
  · have := haall p hpa
    omega
  · have := hball q ((List.prefix_append_right_inj a).mp hp)
    rw [braceDepth_append]
    omega

/-- The brace that counting stops at is the first one that closes more groups than are open in front
of it. -/
theorem braceLength?_eq_some_iff {depth n : Nat} {t : Text} :
    braceLength? depth t = some n ↔
      ∃ inner rest, Closes depth inner ∧ t = inner ++ '\x7d' :: rest ∧ n = inner.length := by
  induction t generalizing depth n with
  | nil => simp [braceLength?]
  | cons c r ih =>
      -- the brace is the first character, or it is found behind it
      have hsplit : (∃ inner rest, Closes depth inner ∧ c :: r = inner ++ '\x7d' :: rest ∧
            n = inner.length) ↔
          (Closes depth [] ∧ c = '\x7d' ∧ n = 0) ∨
            ∃ inner rest, Closes depth (c :: inner) ∧ r = inner ++ '\x7d' :: rest ∧
              n = inner.length + 1 := by
        constructor
        · rintro ⟨inner, rest, hcloses, heq, rfl⟩
          cases inner with
          | nil =>
              cases heq
              exact .inl ⟨hcloses, rfl, rfl⟩
          | cons d inner =>
              cases heq
              exact .inr ⟨inner, rest, hcloses, rfl, rfl⟩
        · rintro (⟨hcloses, rfl, rfl⟩ | ⟨inner, rest, hcloses, rfl, rfl⟩)
          · exact ⟨[], r, hcloses, rfl, rfl⟩
          · exact ⟨c :: inner, rest, hcloses, rfl, rfl⟩
      have hbehind : ∀ outer, ((braceLength? outer r).map (· + 1) = some n ↔
          ∃ inner rest, Closes outer inner ∧ r = inner ++ '\x7d' :: rest ∧
            n = inner.length + 1) := by
        intro outer
        rw [Option.map_eq_some_iff]
        constructor
        · rintro ⟨m, hm, rfl⟩
          obtain ⟨inner, rest, hcloses, heq, rfl⟩ := ih.mp hm
          exact ⟨inner, rest, hcloses, heq, rfl⟩
        · rintro ⟨inner, rest, hcloses, heq, rfl⟩
          exact ⟨inner.length, ih.mpr ⟨inner, rest, hcloses, heq, rfl⟩, rfl⟩
      rw [hsplit]
      unfold braceLength?
      split
      · next hopen =>
          subst hopen
          simp [hbehind, closes_open_iff]
      · next hopen =>
          split
          · next hclose =>
              subst hclose
              cases depth with
              | zero => simp [closes_nil_iff, closes_close_iff, eq_comm]
              | succ outer => simp [hbehind, closes_nil_iff, closes_close_iff]
          · next hclose => simp [hbehind, hclose, closes_plain_iff hopen hclose]

theorem balanced_of_braceLength? {t : Text} (h : braceLength? 0 (t ++ ['\x7d']) = some t.length) :
    Balanced t := by
  obtain ⟨inner, rest, hbalanced, heq, hlen⟩ := exists_balanced h
  rw [(List.append_inj heq hlen).1]
  exact hbalanced

theorem balanced_iff_closes {t : Text} : Balanced t ↔ Closes 0 t := by
  constructor
  · intro h
    induction h with
    | nil => exact closes_nil_iff.mpr rfl
    | plain hopen hclose _ ih => exact (closes_plain_iff hopen hclose).mpr ih
    | group _ _ hinner hrest =>
        exact closes_open_iff.mpr (hinner.append (closes_close_iff.mpr ⟨0, rfl, hrest⟩))
  · intro h
    exact balanced_of_braceLength? (braceLength?_eq_some_iff.mpr ⟨t, [], h, rfl, rfl⟩)

/-- Counting stops behind a balanced text. -/
theorem braceLength?_zero_eq_some_iff {n : Nat} {t : Text} :
    braceLength? 0 t = some n ↔
      ∃ inner rest, Balanced inner ∧ t = inner ++ '\x7d' :: rest ∧ n = inner.length := by
  simp only [braceLength?_eq_some_iff, balanced_iff_closes]

instance (t : Text) : Decidable (Balanced t) :=
  decidable_of_iff (braceLength? 0 (t ++ ['\x7d']) = some t.length)
    ⟨balanced_of_braceLength?, fun h => braceLength?_zero_eq_some_iff.mpr ⟨t, [], h, rfl, rfl⟩⟩

theorem Balanced.of_append {a b : Text} (h : Balanced (a ++ b)) (hb : Balanced b) : Balanced a := by
  obtain ⟨hsum, hall⟩ := balanced_iff_closes.mp h
  obtain ⟨hbsum, -⟩ := balanced_iff_closes.mp hb
  rw [braceDepth_append] at hsum
  refine balanced_iff_closes.mpr ⟨by omega, ?_⟩
  intro p hp
  exact hall p (hp.trans (List.prefix_append a b))

/-! ## Groups -/

/-- A text that begins with an opening brace and ends where the depth first comes back to zero. -/
def IsGroup (source : Text) : Prop :=
  source.head? = some '\x7b' ∧ braceDepth source = 0 ∧
    ∀ p, p <+: source → p ≠ [] → p ≠ source → braceDepth p ≠ 0

/-- The depth changes by one at a time, so it does not come below a level that it never takes. -/
theorem nonneg_of_forall_prefix_ne {k : Int} {t : Text} (hk : 0 ≤ k)
    (h : ∀ p, p <+: t → k + braceDepth p ≠ -1) : ∀ p, p <+: t → 0 ≤ k + braceDepth p := by
  induction t generalizing k with
  | nil =>
      intro p hp
      rw [List.prefix_nil.mp hp]
      simpa using hk
  | cons c r ih =>
      rw [forall_prefix_cons_iff] at h ⊢
      obtain ⟨step, hstep, hcons⟩ : ∃ step : Int, -1 ≤ step ∧
          ∀ r, braceDepth (c :: r) = step + braceDepth r := by
        refine ⟨_, ?_, fun r => rfl⟩
        split
        · omega
        · split <;> omega
      have hnext : 0 ≤ k + step := by
        have := h.2 [] List.nil_prefix
        rw [hcons, braceDepth_nil] at this
        omega
      have hrest : ∀ p, p <+: r → 0 ≤ k + step + braceDepth p := by
        refine ih hnext ?_
        intro p hp
        have := h.2 p hp
        rw [hcons] at this
        omega
      refine ⟨by simpa using hk, ?_⟩
      intro p hp
      have := hrest p hp
      rw [hcons]
      omega

/-- Between the braces of a group every brace has its partner. -/
theorem isGroup_iff_balanced {content : Text} :
    IsGroup ('\x7b' :: (content ++ ['\x7d'])) ↔ Balanced content := by
  have hdepth : braceDepth ('\x7b' :: (content ++ ['\x7d'])) = braceDepth content := by
    rw [braceDepth_open, braceDepth_append, braceDepth_close, braceDepth_nil]
    omega
  rw [balanced_iff_closes]
  constructor
  · rintro ⟨-, hsum, hall⟩
    have hne : ∀ p, p <+: content → 0 + braceDepth p ≠ -1 := by
      intro p hp heq
      refine hall ('\x7b' :: p) ?_ (List.cons_ne_nil _ _) ?_ ?_
      · exact List.cons_prefix_cons.mpr ⟨rfl, hp.trans (List.prefix_append ..)⟩
      · intro hwhole
        have hlen := congrArg List.length (List.cons.inj hwhole).2
        have := hp.length_le
        simp only [List.length_append, List.length_singleton] at hlen
        omega
      · rw [braceDepth_open]
        omega
    refine ⟨by omega, ?_⟩
    intro p hp
    have := nonneg_of_forall_prefix_ne (Int.le_refl 0) hne p hp
    omega
  · rintro ⟨hsum, hall⟩
    refine ⟨rfl, by omega, ?_⟩
    intro p hp hnil hwhole
    obtain ⟨q, rfl, hq⟩ := (List.prefix_cons_iff.mp hp).resolve_left hnil
    rcases List.prefix_concat_iff.mp hq with rfl | hq
    · exact absurd rfl hwhole
    · have := hall q hq
      rw [braceDepth_open]
      omega

end InverseTemplate
