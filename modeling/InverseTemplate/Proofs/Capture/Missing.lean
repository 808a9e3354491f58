/-
# What a missing anchor costs

A text anchor is missed if no hit of it counts in the search for it, which begins at the cursor
that the anchors in front of it have left.  A slot is not located exactly if the text behind it is
missed, or if the last text in front of it was, and a text that is missed leaves the cursor where
it was (`Captures.find_unlocated_iff`).  So a missing text costs the slot in front of it and the
slots behind it up to the next text that is found, and nothing else.

The invariant of the scan is that it is out of step exactly if the last text so far was missed.
Anchors other than texts leave it in step or out of step, as it was.
-/
import InverseTemplate.Proofs.Anchor.Leftmost
import InverseTemplate.Proofs.Capture.Complete
import InverseTemplate.Proofs.Capture.Step

namespace InverseTemplate

/-! ## The scan in front of a slot -/

/-- The scan in front of the slot at an index of the parts; `scan` is where it stands in front of
the first one.  Behind the last slot it is the scan at its end. -/
def Scan.before (settings : Settings) (blocks : List Span) (t : Text) (scan : Scan) :
    List (Slot × Text) → Nat → Scan
  | [], _ => scan
  | _ :: _, 0 => scan
  | (slot, literal) :: rest, i + 1 =>
      before settings blocks t
        (scan.step settings blocks t slot.label (.ofLiteral literal) rest.isEmpty).next rest i

namespace Template

/-- The scan of a text in front of the slot at an index. -/
def scanBefore (settings : Settings) (template : Template) (t : Text) (i : Nat) : Scan :=
  .before settings (fences t) t (Scan.opening (fences t) t (.ofLiteral template.opening)).1
    template.parts i

/-- The anchor that the literal at an index makes. -/
def anchor? (template : Template) (k : Nat) : Option Anchor := template.literals[k]?.map .ofLiteral

/-- The cursor that the anchors in front of the one at an index have left. -/
def cursorAt (settings : Settings) (template : Template) (t : Text) : Nat → Nat
  | 0 => 0
  | k + 1 => (template.scanBefore settings t k).cursor

/-- The anchor at the index is a text. -/
def HasText (template : Template) (k : Nat) : Prop := ∃ a, template.anchor? k = some (.text a)

/-- The anchor at the index is a text, and a hit of it counts from the cursor on. -/
def Finds (settings : Settings) (template : Template) (t : Text) (k : Nat) : Prop :=
  ∃ a hit, template.anchor? k = some (.text a) ∧
    Counts a.matcher (fences t) t (template.cursorAt settings t k) hit

/-- The anchor at the index is a text that is not found. -/
def Misses (settings : Settings) (template : Template) (t : Text) (k : Nat) : Prop :=
  template.HasText k ∧ ¬ template.Finds settings t k

/-- Among the anchors up to the index there is a text, and the last one of them is not found. -/
def MissesLast (settings : Settings) (template : Template) (t : Text) (i : Nat) : Prop :=
  ∃ k, k ≤ i ∧ template.Misses settings t k ∧ ∀ j, k < j → j ≤ i → ¬ template.HasText j

variable {settings : Settings} {template : Template} {t : Text} {i k : Nat} {a : TextAnchor}

theorem finds_iff (ha : template.anchor? k = some (.text a)) :
    template.Finds settings t k ↔
      ∃ hit, Counts a.matcher (fences t) t (template.cursorAt settings t k) hit := by
  constructor
  · rintro ⟨a', hit, ha', hcounts⟩
    rw [ha, Option.some.injEq, Anchor.text.injEq] at ha'
    subst ha'
    exact ⟨hit, hcounts⟩
  · rintro ⟨hit, hcounts⟩
    exact ⟨a, hit, ha, hcounts⟩

theorem misses_iff (ha : template.anchor? k = some (.text a)) :
    template.Misses settings t k ↔
      ∀ hit, ¬ Counts a.matcher (fences t) t (template.cursorAt settings t k) hit := by
  rw [Misses, finds_iff ha, not_exists]
  exact ⟨And.right, fun h => ⟨⟨a, ha⟩, h⟩⟩

theorem not_hasText_iff {after : Anchor} (hafter : template.anchor? k = some after) :
    ¬ template.HasText k ↔ after.isText = false := by
  simp only [HasText, hafter, Option.some.injEq, not_exists]
  cases after with
  | empty | gap => simp [Anchor.isText]
  | text a => simp [Anchor.isText]

theorem missesLast_of_hasText (h : template.HasText k) :
    template.MissesLast settings t k ↔ template.Misses settings t k := by
  constructor
  · rintro ⟨j, hle, hmisses, hlast⟩
    rcases Nat.lt_or_eq_of_le hle with hlt | rfl
    · exact absurd h (hlast k hlt (Nat.le_refl k))
    · exact hmisses
  · intro hmisses
    exact ⟨k, Nat.le_refl k, hmisses, fun j h1 h2 => by omega⟩

theorem missesLast_succ_of_not_hasText (h : ¬ template.HasText (i + 1)) :
    template.MissesLast settings t (i + 1) ↔ template.MissesLast settings t i := by
  constructor
  · rintro ⟨k, hle, hmisses, hlast⟩
    rcases Nat.lt_or_eq_of_le hle with hlt | rfl
    · exact ⟨k, Nat.le_of_lt_succ hlt, hmisses, fun j h1 h2 => hlast j h1 (Nat.le_succ_of_le h2)⟩
    · exact absurd hmisses.1 h
  · rintro ⟨k, hle, hmisses, hlast⟩
    refine ⟨k, Nat.le_succ_of_le hle, hmisses, fun j h1 h2 => ?_⟩
    rcases Nat.lt_or_eq_of_le h2 with hlt | rfl
    · exact hlast j h1 (Nat.le_of_lt_succ hlt)
    · exact h

end Template

/-! ## One step -/

namespace Scan

variable {settings : Settings} {blocks : List Span} {t : Text} {isLast : Bool} {scan next : Scan}
  {span : Option Span}

/-- Over a text a step is in step afterwards if the text is found, whatever was before.  Its slot is
located if the scan was in step and the text is found. -/
theorem Moves.of_text {a : TextAnchor}
    (h : Moves settings blocks t isLast scan (.text a) span next) :
    (next.synced = false ↔ ∀ hit, ¬ Counts a.matcher blocks t scan.cursor hit) ∧
      (span = none ↔
        (∀ hit, ¬ Counts a.matcher blocks t scan.cursor hit) ∨ scan.synced = false) ∧
      ((∀ hit, ¬ Counts a.matcher blocks t scan.cursor hit) → next.cursor = scan.cursor) := by
  rw [← searchOutside_eq_none_iff]
  cases h with
  | last _ _ htext => simp [Anchor.isText] at htext
  | text hsync hhit => simp [hsync, hhit]
  | textMissing hsync hnone => simp [hnone]
  | resynced hsync hhit => simp [hsync, hhit]
  | lost hsync hnone => simp [hsync, hnone a rfl]

theorem Moves.of_not_text {after : Anchor} (h : Moves settings blocks t isLast scan after span next)
    (hafter : after.isText = false) :
    next.synced = scan.synced ∧ (span = none ↔ scan.synced = false) := by
  cases h with
  | last hsync | adjacent hsync | gap hsync | gapMissing hsync => simp [hsync]
  | text | textMissing | resynced => simp [Anchor.isText] at hafter
  | lost hsync => simp [hsync]

/-- What a step does at an index: it moves the scan on from there, and gives the capture at the
index its passage. -/
theorem exists_moves (settings : Settings) (blocks : List Span) (t : Text) (index : Nat)
    (scan : Scan) {parts : List (Slot × Text)} {i : Nat} {part : Slot × Text}
    (hpart : parts[i]? = some part) :
    ∃ isLast span c,
      Moves settings blocks t isLast (before settings blocks t scan parts i)
        (.ofLiteral part.2) span
        (before settings blocks t scan parts (i + 1)) ∧
      (Captures.ofParts settings blocks t index scan parts).captures[i]? = some c ∧
      c.passage = span.map fun s => .between t s.start s.stop := by
  induction parts generalizing index i scan with
  | nil => simp at hpart
  | cons first rest ih =>
      obtain ⟨slot, literal⟩ := first
      cases i with
      | zero =>
          obtain rfl : (slot, literal) = part := by simpa using hpart
          have hnext : before settings blocks t scan ((slot, literal) :: rest) 1 =
              (scan.step settings blocks t slot.label (.ofLiteral literal) rest.isEmpty).next := by
            cases rest <;> rfl
          rw [hnext]
          exact ⟨_, _, _,
            moves_step settings blocks t scan slot.label (.ofLiteral literal) rest.isEmpty,
            rfl, rfl⟩
      | succ i => exact ih (index + 1) _ (by simpa using hpart)

end Scan

/-! ## The whole scan -/

namespace Template

variable {template : Template} {t : Text} {i k : Nat} {settings : Settings}

theorem anchor?_succ {part : Slot × Text} (hpart : template.parts[i]? = some part) :
    template.anchor? (i + 1) = some (.ofLiteral part.2) := by
  simp [anchor?, literals, hpart]

theorem exists_moves (settings : Settings) (t : Text) {part : Slot × Text}
    (hpart : template.parts[i]? = some part) :
    ∃ isLast span c,
      Scan.Moves settings (fences t) t isLast (template.scanBefore settings t i)
        (.ofLiteral part.2) span
        (template.scanBefore settings t (i + 1)) ∧
      (Captures.find settings template t).captures[i]? = some c ∧
      c.passage = span.map fun s => .between t s.start s.stop :=
  Scan.exists_moves settings (fences t) t 0 _ hpart

theorem scanBefore_zero (settings : Settings) (template : Template) (t : Text) :
    ((template.scanBefore settings t 0).synced = false ↔ template.Misses settings t 0) ∧
      (template.Misses settings t 0 → (template.scanBefore settings t 0).cursor = 0) := by
  have hscan : template.scanBefore settings t 0 =
      (Scan.opening (fences t) t (.ofLiteral template.opening)).1 := by
    cases hparts : template.parts <;> simp [scanBefore, hparts, Scan.before]
  have hanchor : template.anchor? 0 = some (.ofLiteral template.opening) := rfl
  rw [hscan]
  cases hl : Anchor.ofLiteral template.opening with
  | empty | gap =>
      have hnot : ¬ template.HasText 0 := (not_hasText_iff hanchor).mpr (by rw [hl]; rfl)
      simp [Scan.opening, Misses, hnot]
  | text a =>
      rw [hl] at hanchor
      rw [misses_iff hanchor, cursorAt, ← searchOutside_eq_none_iff, Scan.opening]
      cases hfound : (searchOutside a.matcher (fences t) t 0).hit with
      | none => simp
      | some hit => simp

/-- In front of a slot the scan is out of step exactly if the last text was missed. -/
theorem synced_scanBefore (hi : i ≤ template.parts.length) :
    (template.scanBefore settings t i).synced = false ↔ template.MissesLast settings t i := by
  induction i with
  | zero =>
      rw [(scanBefore_zero settings template t).1]
      constructor
      · exact fun h => ⟨0, Nat.le_refl 0, h, fun j h1 h2 => by omega⟩
      · rintro ⟨k, hle, hmisses, -⟩
        rwa [Nat.le_zero.mp hle] at hmisses
  | succ i ih =>
      have ih := ih (Nat.le_of_succ_le hi)
      have hpart := List.getElem?_eq_getElem (Nat.lt_of_succ_le hi)
      have hanchor := anchor?_succ hpart
      obtain ⟨_, _, _, hmoves, -⟩ := exists_moves settings t hpart
      cases hafter : Anchor.ofLiteral template.parts[i].2 with
      | text a =>
          rw [hafter] at hmoves hanchor
          rw [missesLast_of_hasText ⟨a, hanchor⟩, misses_iff hanchor]
          exact hmoves.of_text.1
      | empty | gap =>
          rw [hafter] at hmoves hanchor
          rw [missesLast_succ_of_not_hasText ((not_hasText_iff hanchor).mpr rfl), ← ih,
            (hmoves.of_not_text rfl).1]

theorem not_hasText_of_length_lt (hk : template.parts.length < k) : ¬ template.HasText k := by
  rintro ⟨a, ha⟩
  have hnone : template.literals[k]? = none := by
    rw [List.getElem?_eq_none_iff, length_literals, slots, List.length_map]
    exact hk
  simp [anchor?, hnone] at ha

theorem cursorAt_succ_of_misses (h : template.Misses settings t k) :
    template.cursorAt settings t (k + 1) = template.cursorAt settings t k := by
  cases k with
  | zero => exact (scanBefore_zero settings template t).2 h
  | succ i =>
      have hi : i < template.parts.length := by
        refine Nat.lt_of_not_le fun hle => ?_
        exact not_hasText_of_length_lt (Nat.lt_succ_of_le hle) h.1
      have hpart := List.getElem?_eq_getElem hi
      obtain ⟨_, _, _, hmoves, -⟩ := exists_moves settings t hpart
      obtain ⟨a, ha⟩ := h.1
      have hafter := (anchor?_succ hpart).symm.trans ha
      rw [Option.some.injEq] at hafter
      rw [hafter] at hmoves
      exact hmoves.of_text.2.2 ((misses_iff ha).mp h)

end Template

namespace Captures

/-- There is one capture for every slot.  A slot is not located exactly if the anchor behind it is
a text that is missed, or if the last text in front of it was missed.  A text that is missed
leaves the cursor where it was. -/
theorem find_unlocated_iff (settings : Settings) (template : Template) (t : Text) :
    let captures := (find settings template t).captures
    captures.map Capture.slot = template.slots ∧
    (∀ i c, captures[i]? = some c →
      (c.raw? = none ↔ template.Misses settings t (i + 1) ∨ template.MissesLast settings t i)) ∧
    ∀ k, template.Misses settings t k →
      template.cursorAt settings t (k + 1) = template.cursorAt settings t k := by
  intro captures
  have hslots : captures.map Capture.slot = template.slots := map_slot_ofParts ..
  refine ⟨hslots, fun i c hc => ?_, fun k => Template.cursorAt_succ_of_misses⟩
  have hi : i < template.parts.length := by
    have hlength := congrArg List.length hslots
    rw [List.length_map, Template.slots, List.length_map] at hlength
    rw [← hlength]
    exact (List.getElem?_eq_some_iff.mp hc).1
  have hpart := List.getElem?_eq_getElem hi
  have hanchor := Template.anchor?_succ hpart
  obtain ⟨isLast, span, c', hmoves, hc', hpassage⟩ := Template.exists_moves settings t hpart
  obtain rfl : c' = c := Option.some.inj (hc'.symm.trans hc)
  have hraw : c'.raw? = none ↔ span = none := by
    rw [Capture.raw?, hpassage, Option.map_eq_none_iff, Option.map_eq_none_iff]
  rw [hraw, ← Template.synced_scanBefore (Nat.le_of_lt hi)]
  cases hafter : Anchor.ofLiteral template.parts[i].2 with
  | text a =>
      rw [hafter] at hmoves hanchor
      rw [Template.misses_iff hanchor]
      exact hmoves.of_text.2.1
  | empty | gap =>
      rw [hafter] at hmoves hanchor
      have hnot : ¬ template.Misses settings t (i + 1) :=
        fun h => (Template.not_hasText_iff hanchor).mpr rfl h.1
      rw [or_iff_right hnot]
      exact (hmoves.of_not_text rfl).2

/-- A missing text between the first two slots costs both of them, and the third is found again. -/
theorem find_unlocated_iff_resynchronized :
    let template := Template.ofText (text "A \x7ba\x7d B \x7bb\x7d C \x7bc\x7d")
    let t := text "A x C z"
    let captures := (find {} template t).captures
    captures.length = 3 ∧ template.Misses {} t 1 ∧
      (∀ i c, captures[i]? = some c → i < 2 → c.raw? = none) ∧
      captures[2]?.bind Capture.raw? = some (text " z") ∧
      template.cursorAt {} t 2 = template.cursorAt {} t 1 := by
  intro template t captures
  obtain ⟨-, hlocated, hcursor⟩ := find_unlocated_iff {} template t
  have hanchor : template.anchor? 1 =
      some (.text ⟨text "B", .wordEdge, [.word (text "B")], .wordEdge⟩) := by decide +kernel
  have hmisses : template.Misses {} t 1 := by
    rw [Template.misses_iff hanchor, ← searchOutside_eq_none_iff]
    decide +kernel
  have hlast : template.MissesLast {} t 1 := (Template.missesLast_of_hasText hmisses.1).mpr hmisses
  refine ⟨by decide +kernel, hmisses, ?_, by decide +kernel, hcursor 1 hmisses⟩
  intro i c hc hi
  cases i with
  | zero => exact (hlocated 0 c hc).mpr (.inl hmisses)
  | succ i =>
      obtain rfl : i = 0 := by omega
      exact (hlocated 1 c hc).mpr (.inr hlast)

end Captures

end InverseTemplate
