/-
# What a step of the scan can do

`Scan.Moves` says once what a step does to the cursor and what it gives to its slot, one case for
each way a slot can be bounded, with the search that decides it.  The labels and events of a step do
not matter for that and are left out.  Every law of the whole scan is an induction over such moves,
so that none of them opens the step itself again.
-/
import InverseTemplate.Capture
import InverseTemplate.Proofs.Anchor.Taken

namespace InverseTemplate

namespace Scan

/-- What a step over the anchor behind a slot gives to the slot, and where it leaves the scan. -/
inductive Moves (settings : Settings) (blocks : List Span) (t : Text) (isLast : Bool)
    (scan : Scan) : Anchor → Option Span → Scan → Prop
  /-- The last slot runs to the end of the text, unless a text is behind it. -/
  | last {after : Anchor} : scan.synced = true → isLast = true → after.isText = false →
      Moves settings blocks t isLast scan after (some ⟨scan.cursor, t.length⟩) ⟨t.length, true⟩
  /-- Of two slots with nothing between them the first one gets nothing. -/
  | adjacent : scan.synced = true → isLast = false →
      Moves settings blocks t isLast scan .empty (some ⟨scan.cursor, scan.cursor⟩)
        ⟨scan.cursor, true⟩
  | gap {g : Gap} {hit : Span} : scan.synced = true → isLast = false →
      (searchOutside g.matcher blocks t (contentStart t scan.cursor)).hit = some hit →
      Moves settings blocks t isLast scan (.gap g) (some ⟨scan.cursor, hit.start⟩) ⟨hit.stop, true⟩
  /-- Without its gap a slot runs to the end of the section. -/
  | gapMissing {g : Gap} {stop : Nat} : scan.synced = true → isLast = false →
      (searchOutside g.matcher blocks t (contentStart t scan.cursor)).hit = none →
      stop = sectionEnd settings blocks t (contentStart t scan.cursor) →
      Moves settings blocks t isLast scan (.gap g) (some ⟨scan.cursor, stop⟩) ⟨stop, true⟩
  | text {a : TextAnchor} {hit : Span} : scan.synced = true →
      (searchOutside a.matcher blocks t scan.cursor).hit = some hit →
      Moves settings blocks t isLast scan (.text a) (some ⟨scan.cursor, hit.start⟩) ⟨hit.stop, true⟩
  | textMissing {a : TextAnchor} : scan.synced = true →
      (searchOutside a.matcher blocks t scan.cursor).hit = none →
      Moves settings blocks t isLast scan (.text a) none ⟨scan.cursor, false⟩
  | resynced {a : TextAnchor} {hit : Span} : scan.synced = false →
      (searchOutside a.matcher blocks t scan.cursor).hit = some hit →
      Moves settings blocks t isLast scan (.text a) none ⟨hit.stop, true⟩
  | lost {after : Anchor} : scan.synced = false →
      (∀ a, after = .text a → (searchOutside a.matcher blocks t scan.cursor).hit = none) →
      Moves settings blocks t isLast scan after none scan

/-- A step is one of the moves. -/
theorem moves_step (settings : Settings) (blocks : List Span) (t : Text) (scan : Scan)
    (label : Text) (after : Anchor) (isLast : Bool) : Moves settings blocks t isLast scan after
      (scan.step settings blocks t label after isLast).span
      (scan.step settings blocks t label after isLast).next := by
  cases hsync : scan.synced with
  | false =>
      cases after with
      | empty =>
          simp only [step, hsync, Bool.false_eq_true, if_false, resync]
          exact .lost hsync (by simp)
      | gap g =>
          simp only [step, hsync, Bool.false_eq_true, if_false, resync]
          exact .lost hsync (by simp)
      | text a =>
          simp only [step, hsync, Bool.false_eq_true, if_false, resync]
          split
          · next hit hhit => exact .resynced hsync hhit
          · next hnone => exact .lost hsync fun a' ha' => by cases ha'; exact hnone
  | true =>
      cases after with
      | empty =>
          simp only [step, hsync, if_true, take]
          cases isLast with
          | true => exact .last hsync rfl rfl
          | false => exact .adjacent hsync rfl
      | gap g =>
          cases isLast with
          | true =>
              simp only [step, hsync, if_true, take]
              exact .last hsync rfl rfl
          | false =>
              simp only [step, hsync, if_true, Bool.false_eq_true, if_false, takeToGap]
              split
              · next hit hhit => exact .gap hsync rfl hhit
              · next hnone => exact .gapMissing hsync rfl hnone rfl
      | text a =>
          simp only [step, hsync, if_true, takeToText]
          split
          · next hit hhit => exact .text hsync hhit
          · next hnone => exact .textMissing hsync hnone

variable {settings : Settings} {blocks : List Span} {t literal : Text} {isLast : Bool}
  {scan next : Scan}
  {span : Option Span}

theorem Moves.start_eq {after : Anchor} {s : Span}
    (h : Moves settings blocks t isLast scan after (some s) next) :
    s.start = scan.cursor := by
  cases h <;> rfl

theorem sectionEnd_bounds {offset : Nat} (h : offset ≤ t.length) :
    offset ≤ sectionEnd settings blocks t offset ∧
      sectionEnd settings blocks t offset ≤ t.length := by
  unfold sectionEnd
  split
  · next hit hhit =>
      obtain ⟨h1, h2, -⟩ := searchOutside_sound hhit
      exact ⟨h1, h2.start_le_length⟩
  · exact ⟨h, Nat.le_refl _⟩

theorem contentStart_bounds {offset : Nat} (h : offset ≤ t.length) :
    offset ≤ contentStart t offset ∧ contentStart t offset ≤ t.length := by
  have := length_takeWhile_le Text.isBlank (t.drop offset)
  rw [List.length_drop] at this
  unfold contentStart
  omega

/-- A step leaves the cursor at or behind the end of what it gives to its slot, within the text. -/
theorem Moves.bounds (h : Moves settings blocks t isLast scan (.ofLiteral literal) span next)
    (hcursor : scan.cursor ≤ t.length) :
    scan.cursor ≤ next.cursor ∧ next.cursor ≤ t.length ∧
      ∀ s ∈ span, s.start ≤ s.stop ∧ s.stop ≤ next.cursor := by
  generalize ha : Anchor.ofLiteral literal = after at h
  have hfound : ∀ {m : Matcher} {origin : Nat} {hit : Span}, after.matcher? = some m →
      (searchOutside m blocks t origin).hit = some hit →
      origin ≤ hit.start ∧ hit.start ≤ hit.stop ∧ hit.stop ≤ t.length := by
    intro m origin hit hm hhit
    obtain ⟨h1, h2, -⟩ := searchOutside_sound hhit
    exact ⟨h1, h2.start_le_stop, Anchor.stop_le_length (ha ▸ hm) h2⟩
  have hcontent := contentStart_bounds hcursor
  cases h with
  | last => exact ⟨hcursor, Nat.le_refl _, by simpa using hcursor⟩
  | adjacent => exact ⟨Nat.le_refl _, hcursor, by simp⟩
  | gap _ _ hhit =>
      obtain ⟨h1, h2, h3⟩ := hfound rfl hhit
      simp only [Option.mem_def, Option.some.injEq, forall_eq']
      omega
  | gapMissing _ _ _ hstop =>
      obtain ⟨h1, h2⟩ := @sectionEnd_bounds settings blocks t _ hcontent.2
      simp only [Option.mem_def, Option.some.injEq, forall_eq']
      omega
  | text _ hhit =>
      obtain ⟨h1, h2, h3⟩ := hfound rfl hhit
      simp only [Option.mem_def, Option.some.injEq, forall_eq']
      omega
  | textMissing => exact ⟨Nat.le_refl _, hcursor, by simp⟩
  | resynced _ hhit =>
      obtain ⟨h1, h2, h3⟩ := hfound rfl hhit
      exact ⟨Nat.le_trans h1 h2, h3, by simp⟩
  | lost => exact ⟨Nat.le_refl _, hcursor, by simp⟩

theorem cursor_opening_le (blocks : List Span) (t literal : Text) :
    (opening blocks t (.ofLiteral literal)).1.cursor ≤ t.length := by
  cases hl : Anchor.ofLiteral literal with
  | empty => exact Nat.zero_le _
  | gap g => exact Nat.zero_le _
  | text a =>
      simp only [opening]
      split
      · next hit hhit =>
          exact Anchor.stop_le_length (by rw [hl]; rfl) (searchOutside_sound hhit).2.1
      · exact Nat.zero_le _

end Scan

end InverseTemplate
