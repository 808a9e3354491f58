/-
# The leftmost scan is complete

A scan takes the first hit of every anchor and never takes one back.  Nothing is lost by that: if
the anchors can be laid over the text at all, one behind the other, then the scan finds all of
them, and none later than they were laid.

The invariant of the scan is a single inequality.  Its cursor stands at or before the end of the
span that was laid for the anchor used up last.  The next anchor was laid behind that end, so a hit
of it lies ahead of the cursor; the first such hit begins no later than the span laid for it, and
by the exchange step (`Anchor.stop_le_of_start_le`) it ends no later either.
-/
import InverseTemplate.Capture
import InverseTemplate.Proofs.Anchor.Words

namespace InverseTemplate

/-! ## Laying anchors over a text -/

/-- Is the anchor behind a slot looked for?  An empty one is not, and behind the last slot only a
text is. -/
def Anchor.isSought (isLast : Bool) : Anchor → Bool
  | .empty => false
  | .gap _ => !isLast
  | .text _ => true

/-- The anchors that are looked for behind slots, each with the index of the slot in front of it;
the first slot has the given index. -/
def soughtBehind (index : Nat) : List (Slot × Text) → List (Option Nat × Anchor)
  | [] => []
  | (_, literal) :: rest =>
      let after := Anchor.ofLiteral literal
      if after.isSought rest.isEmpty then (some index, after) :: soughtBehind (index + 1) rest
      else soughtBehind (index + 1) rest

/-- All anchors that a scan looks for, in their order.  In front of the first slot only a text is
looked for. -/
def Template.sought (template : Template) : List (Option Nat × Anchor) :=
  let lead := Anchor.ofLiteral template.opening
  (if lead.isText then [(none, lead)] else []) ++ soughtBehind 0 template.parts

/-- Spans laid for anchors from an offset on: each is a hit of its anchor and begins behind the
span before it.  A gap begins where the content goes on, or later. -/
inductive Laid (t : Text) : Nat → List (Option Nat × Anchor) → List Span → Prop
  | nil {offset : Nat} : Laid t offset [] []
  | cons {offset : Nat} {front : Option Nat} {anchor : Anchor} {m : Matcher} {s : Span}
      {anchors : List (Option Nat × Anchor)} {spans : List Span} :
      anchor.matcher? = some m → m.Hits t s → offset ≤ s.start →
      (∀ g, anchor = .gap g → contentStart t offset ≤ s.start) →
      Laid t s.stop anchors spans → Laid t offset ((front, anchor) :: anchors) (s :: spans)

/-! ## One search -/

theorem exists_earlier_hit {literal : Text} {m : Matcher}
    (hm : (Anchor.ofLiteral literal).matcher? = some m) {t : Text} {origin : Nat} {s : Span}
    (hs : m.Hits t s) (ho : origin ≤ s.start) :
    ∃ hit, (searchOutside m [] t origin).hit = some hit ∧
      hit.start ≤ s.start ∧ hit.stop ≤ s.stop := by
  have hlen := hs.start_le_length
  obtain ⟨hit, hfound, hle⟩ := Matcher.exists_search ho hlen hs.takes
  have hhit := ((Matcher.search_eq_some_iff (by omega)).mp hfound).2.1
  refine ⟨hit, ?_, hle, Anchor.stop_le_of_start_le hm hhit hs hle⟩
  rw [hit_searchOutside_nil m (by omega)]
  exact hfound

namespace Scan

variable {t literal : Text} {scan : Scan} {isLast : Bool} (settings : Settings) (label : Text)

/-- A step over an anchor that was laid ahead of the cursor gives the slot a span that ends no
later than the anchor was laid, and leaves the cursor no later either. -/
theorem step_of_sought (hsync : scan.synced = true) {m : Matcher} {s : Span} {offset : Nat}
    (hsought : (Anchor.ofLiteral literal).isSought isLast = true)
    (hm : (Anchor.ofLiteral literal).matcher? = some m) (hs : m.Hits t s)
    (hcursor : scan.cursor ≤ offset) (ho : offset ≤ s.start)
    (hgap : ∀ g, Anchor.ofLiteral literal = .gap g → contentStart t offset ≤ s.start) :
    ∃ (hit : Span) (events : List Event),
      scan.step settings [] t label (.ofLiteral literal) isLast =
          scan.take label hit.start hit.stop events ∧
      hit.start ≤ s.start ∧ hit.stop ≤ s.stop := by
  cases hl : Anchor.ofLiteral literal with
  | empty => simp [hl, Anchor.isSought] at hsought
  | gap g =>
      have hlast : isLast = false := by simpa [hl, Anchor.isSought] using hsought
      have horigin : contentStart t scan.cursor ≤ s.start :=
        Nat.le_trans (contentStart_mono t hcursor) (hgap g hl)
      obtain ⟨hit, hfound, h1, h2⟩ := exists_earlier_hit hm hs horigin
      rw [hl, Anchor.matcher?, Option.some.injEq] at hm
      subst hm
      refine ⟨hit, skips (searchOutside g.matcher [] t (contentStart t scan.cursor)), ?_, h1, h2⟩
      simp only [step, hsync, hlast, if_true, Bool.false_eq_true, if_false, takeToGap, hfound]
  | text a =>
      obtain ⟨hit, hfound, h1, h2⟩ := exists_earlier_hit hm hs (Nat.le_trans hcursor ho)
      rw [hl, Anchor.matcher?, Option.some.injEq] at hm
      subst hm
      refine ⟨hit, skips (searchOutside a.matcher [] t scan.cursor), ?_, h1, h2⟩
      simp only [step, hsync, if_true, takeToText, hfound]

/-- A step over an anchor that is not looked for locates its slot, and only behind the last slot
does it move the cursor. -/
theorem step_of_not_sought (hsync : scan.synced = true)
    (hsought : (Anchor.ofLiteral literal).isSought isLast = false) :
    ∃ stop, scan.step settings [] t label (.ofLiteral literal) isLast =
      scan.take label stop stop [] ∧
      (isLast = false → stop = scan.cursor) := by
  cases hl : Anchor.ofLiteral literal with
  | empty =>
      refine ⟨if isLast then t.length else scan.cursor, ?_, fun h => by simp [h]⟩
      simp only [step, hsync, if_true]
  | gap g =>
      have hlast : isLast = true := by simpa [hl, Anchor.isSought] using hsought
      refine ⟨t.length, ?_, fun h => by simp [h] at hlast⟩
      simp only [step, hsync, hlast, if_true]
  | text a => simp [hl, Anchor.isSought] at hsought

end Scan

/-! ## The whole scan -/

namespace Captures

variable {t : Text}

theorem map_slot_ofParts (settings : Settings) (blocks : List Span) (t : Text) (index : Nat)
    (scan : Scan) (parts : List (Slot × Text)) :
    (ofParts settings blocks t index scan parts).captures.map Capture.slot =
      parts.map Prod.fst := by
  induction parts generalizing index scan with
  | nil => rfl
  | cons part rest ih =>
      obtain ⟨slot, literal⟩ := part
      simp only [ofParts, List.map_cons, ih]

/-- The capture at an index is located, and ends at or before an offset. -/
def EndsBefore (captures : List Capture) (index offset : Nat) : Prop :=
  ∃ c passage, captures[index]? = some c ∧ c.passage = some passage ∧
    passage.span.stop ≤ offset

theorem ofParts_complete (settings : Settings) {parts : List (Slot × Text)} {index offset : Nat}
    {scan : Scan} {spans : List Span} (hsync : scan.synced = true) (hcursor : scan.cursor ≤ offset)
    (hlaid : Laid t offset (soughtBehind index parts) spans) :
    (∀ c ∈ (ofParts settings [] t index scan parts).captures, c.passage.isSome) ∧
    ∀ pair ∈ ((soughtBehind index parts).map Prod.fst).zip spans, ∃ i, pair.1 = some (index + i) ∧
      EndsBefore (ofParts settings [] t index scan parts).captures i pair.2.start := by
  induction parts generalizing index offset scan spans with
  | nil => exact ⟨by simp [ofParts], by simp [soughtBehind]⟩
  | cons part rest ih =>
      obtain ⟨slot, literal⟩ := part
      -- a later slot has its capture one place further on
      have hshift : ∀ {captures : List Capture} {c : Capture} {pair : Option Nat × Span},
          (∃ i, pair.1 = some (index + 1 + i) ∧ EndsBefore captures i pair.2.start) →
          ∃ i, pair.1 = some (index + i) ∧ EndsBefore (c :: captures) i pair.2.start := by
        rintro captures c pair ⟨i, hi, c', passage, hc', hp, hle⟩
        exact ⟨i + 1, by rw [hi]; congr 1; omega, c', passage, by simpa using hc', hp, hle⟩
      by_cases hsought : (Anchor.ofLiteral literal).isSought rest.isEmpty = true
      · rw [soughtBehind, if_pos hsought] at hlaid ⊢
        cases hlaid with
        | cons hm hs ho hgap hrest =>
            obtain ⟨hit, events, hstep, h1, h2⟩ :=
              Scan.step_of_sought settings slot.label hsync hsought hm hs hcursor ho hgap
            obtain ⟨ih1, ih2⟩ := @ih (index + 1) _ ⟨hit.stop, true⟩ _ rfl h2 hrest
            simp only [ofParts, hstep, Scan.take]
            refine ⟨?_, ?_⟩
            · intro c hc
              rcases List.mem_cons.mp hc with rfl | hc
              · rfl
              · exact ih1 c hc
            · intro pair hpair
              rw [List.map_cons, List.zip_cons_cons] at hpair
              rcases List.mem_cons.mp hpair with rfl | hpair
              · exact ⟨0, rfl, _, _, rfl, rfl, h1⟩
              · exact hshift (ih2 pair hpair)
      · rw [Bool.not_eq_true] at hsought
        rw [soughtBehind, if_neg (by simp [hsought])] at hlaid ⊢
        obtain ⟨stop, hstep, hstop⟩ :=
          Scan.step_of_not_sought (t := t) settings slot.label hsync hsought
        have hnext : ∃ offset', stop ≤ offset' ∧ Laid t offset' (soughtBehind (index + 1) rest)
            spans := by
          cases rest with
          | nil =>
              cases hlaid
              exact ⟨stop, Nat.le_refl _, .nil⟩
          | cons _ _ => exact ⟨offset, by rw [hstop rfl]; exact hcursor, hlaid⟩
        obtain ⟨offset', hle, hlaid'⟩ := hnext
        obtain ⟨ih1, ih2⟩ := @ih (index + 1) _ ⟨stop, true⟩ _ rfl hle hlaid'
        simp only [ofParts, hstep, Scan.take]
        refine ⟨?_, fun pair hpair => hshift (ih2 pair hpair)⟩
        intro c hc
        rcases List.mem_cons.mp hc with rfl | hc
        · rfl
        · exact ih1 c hc

/-- If the anchors of a template can be laid over a text without fenced code blocks, the scan
locates every slot, and the capture in front of an anchor ends at or before the place at which that
anchor was laid. -/
theorem find_complete (settings : Settings) (template : Template) {t : Text}
    (hfences : fences t = []) {spans : List Span} (hlaid : Laid t 0 template.sought spans) :
    (find settings template t).captures.map Capture.slot = template.slots ∧
    (∀ c ∈ (find settings template t).captures, c.raw? ≠ none) ∧
    ∀ i span, (some i, span) ∈ (template.sought.map Prod.fst).zip spans →
      EndsBefore (find settings template t).captures i span.start := by
  have hslots : (find settings template t).captures.map Capture.slot = template.slots :=
    map_slot_ofParts ..
  have hmain : ∃ scan spans', scan.synced = true ∧
      (find settings template t).captures =
        (ofParts settings [] t 0 scan template.parts).captures ∧
      (∃ offset, scan.cursor ≤ offset ∧ Laid t offset (soughtBehind 0 template.parts) spans') ∧
      ∀ i span, (some i, span) ∈ (template.sought.map Prod.fst).zip spans →
        (some i, span) ∈ ((soughtBehind 0 template.parts).map Prod.fst).zip spans' := by
    unfold Template.sought at hlaid ⊢
    unfold find
    rw [hfences]
    cases hl : Anchor.ofLiteral template.opening with
    | empty =>
        rw [hl] at hlaid
        exact ⟨⟨0, true⟩, spans, rfl, rfl, ⟨0, Nat.le_refl _, hlaid⟩, fun _ _ h => h⟩
    | gap g =>
        rw [hl] at hlaid
        exact ⟨⟨0, true⟩, spans, rfl, rfl, ⟨0, Nat.le_refl _, hlaid⟩, fun _ _ h => h⟩
    | text a =>
        rw [hl] at hlaid
        cases hlaid with
        | cons hm hs ho hgap hrest =>
            obtain ⟨hit, hfound, h1, h2⟩ := exists_earlier_hit (hl ▸ hm) hs ho
            cases hm
            refine ⟨⟨hit.stop, true⟩, _, rfl, ?_, ⟨_, h2, hrest⟩, ?_⟩
            · simp only [Scan.opening, hfound]
            · intro i span hmem
              simpa [Anchor.isText] using hmem
  obtain ⟨scan, spans', hsync, heq, ⟨offset, hcursor, hlaid'⟩, hzip⟩ := hmain
  obtain ⟨h1, h2⟩ := ofParts_complete settings hsync hcursor hlaid'
  rw [heq] at hslots ⊢
  refine ⟨hslots, ?_, ?_⟩
  · intro c hc
    obtain ⟨passage, hp⟩ := Option.isSome_iff_exists.mp (h1 c hc)
    simp [Capture.raw?, hp]
  · intro i span hmem
    obtain ⟨j, hj, hends⟩ := h2 _ (hzip i span hmem)
    rw [Option.some.injEq, Nat.zero_add] at hj
    rwa [hj]

/-- A heading, a paragraph break and the second of two equal words laid over a text. -/
theorem find_complete_heading :
    let template := Template.ofText (text "# \x7ba\x7d\n\n\x7bb\x7d on \x7bc\x7d")
    let t := text "# T\n\nx on on y"
    let spans : List Span := [⟨0, 1⟩, ⟨3, 5⟩, ⟨10, 12⟩]
    fences t = [] ∧ Laid t 0 template.sought spans ∧
      (∀ c ∈ (find {} template t).captures, c.raw? ≠ none) ∧
      EndsBefore (find {} template t).captures 0 3 ∧
      EndsBefore (find {} template t).captures 1 10 := by
  intro template t spans
  have hfences : fences t = [] := by decide +kernel
  have hsought : template.sought =
      [(none, .text ⟨text "#", .nothing, [.word (text "#")], .wordEdge⟩),
        (some 0, .gap .paragraph),
        (some 1, .text ⟨text "on", .wordEdge, [.word (text "on")], .wordEdge⟩)] := by
    decide +kernel
  have hlaid : Laid t 0 template.sought spans := by
    rw [hsought]
    refine .cons rfl ⟨?_, ?_, ?_⟩ ?_ (by simp)
      (.cons rfl ⟨?_, ?_, ?_⟩ ?_ (fun _ _ => ?_)
        (.cons rfl ⟨?_, ?_, ?_⟩ ?_ (by simp) .nil)) <;>
      decide +kernel
  obtain ⟨-, hlocated, hends⟩ := find_complete {} template hfences hlaid
  rw [hsought] at hends
  exact ⟨hfences, hlaid, hlocated, hends 0 ⟨3, 5⟩ (by decide), hends 1 ⟨10, 12⟩ (by decide)⟩

end Captures

end InverseTemplate
