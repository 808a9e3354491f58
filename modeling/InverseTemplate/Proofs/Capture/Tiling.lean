/-
# Captures tile the text

The captures of a template lie one behind the other over the rendered text, each of them is what
stands there, and between two neighbours lies what the anchor between their slots took and nothing
else (`Captures.find_tiles`).

Both halves are read off the cursor.  It never moves back, a slot begins where it stands and ends
where it goes next or earlier; and what the cursor passes over behind a slot is what separates the
slot from the one that follows, if that one is located too.
-/
import InverseTemplate.Proofs.Capture.Complete
import InverseTemplate.Proofs.Capture.Step

namespace InverseTemplate

/-- What lies between two neighbouring captures: a match of the anchor that the literal makes; or
nothing, if the literal is empty, or blank and not found from the content of the first capture
on. -/
inductive Separated (blocks : List Span) (t literal : Text) (a b : Span) : Prop
  | hit {m : Matcher} : (Anchor.ofLiteral literal).matcher? = some m →
      m.Hits t ⟨a.stop, b.start⟩ → Separated blocks t literal a b
  | empty : literal = [] → a.stop = b.start → Separated blocks t literal a b
  | gapMissing {g : Gap} : Anchor.ofLiteral literal = .gap g →
      (searchOutside g.matcher blocks t (contentStart t a.start)).hit = none →
      a.stop = b.start → Separated blocks t literal a b

theorem Scan.Moves.separated {settings : Settings} {blocks : List Span} {t literal : Text}
    {scan next : Scan} {a b : Span}
    (h : Moves settings blocks t false scan (.ofLiteral literal) (some a) next)
    (hb : b.start = next.cursor) :
    Separated blocks t literal a b := by
  generalize ha : Anchor.ofLiteral literal = after at h
  cases h with
  | last _ hlast => simp at hlast
  | adjacent => exact .empty (Anchor.ofLiteral_eq_empty_iff.mp ha) hb.symm
  | gap _ _ hhit =>
      refine .hit (by rw [ha]; rfl) ?_
      rw [hb]
      exact (searchOutside_sound hhit).2.1
  | gapMissing _ _ hnone => exact .gapMissing ha hnone hb.symm
  | text _ hhit =>
      refine .hit (by rw [ha]; rfl) ?_
      rw [hb]
      exact (searchOutside_sound hhit).2.1

namespace Captures

variable {settings : Settings} {blocks : List Span} {t : Text} {index : Nat} {scan : Scan}
  {parts : List (Slot × Text)}

/-- The captures lie behind the cursor, one behind the other and within the text, and each of them
is what stands there. -/
theorem ofParts_ordered (hcursor : scan.cursor ≤ t.length) :
    (∀ c ∈ (ofParts settings blocks t index scan parts).captures, ∀ p ∈ c.passage,
      scan.cursor ≤ p.span.start ∧ p.span.start ≤ p.span.stop ∧ p.span.stop ≤ t.length ∧
        p.raw = t.slice p.span.start p.span.stop) ∧
    (ofParts settings blocks t index scan parts).captures.Pairwise fun c d =>
      ∀ p ∈ c.passage, ∀ q ∈ d.passage, p.span.stop ≤ q.span.start := by
  induction parts generalizing index scan with
  | nil => exact ⟨by simp [ofParts], .nil⟩
  | cons part rest ih =>
      obtain ⟨slot, literal⟩ := part
      rw [ofParts]
      let step := scan.step settings blocks t slot.label (.ofLiteral literal) rest.isEmpty
      have hmoves : Scan.Moves settings blocks t rest.isEmpty scan (.ofLiteral literal) step.span
          step.next :=
        Scan.moves_step ..
      obtain ⟨hforward, hnext, hspan⟩ := hmoves.bounds hcursor
      obtain ⟨hwithin, hpairwise⟩ := @ih (index + 1) step.next hnext
      -- the passage of this slot is the one between the bounds of its span
      have hpassage : ∀ p ∈ step.span.map (fun s => Passage.between t s.start s.stop),
          ∃ s, step.span = some s ∧ p = .between t s.start s.stop := fun p hp => by
        obtain ⟨s, hs, rfl⟩ := Option.map_eq_some_iff.mp hp
        exact ⟨s, hs, rfl⟩
      refine ⟨?_, List.pairwise_cons.mpr ⟨?_, hpairwise⟩⟩
      · intro c hc p hp
        rcases List.mem_cons.mp hc with rfl | hc
        · obtain ⟨s, hs, rfl⟩ := hpassage p hp
          have hstart : s.start = scan.cursor := by
            rw [hs] at hmoves
            exact hmoves.start_eq
          obtain ⟨h1, h2⟩ := hspan s hs
          exact ⟨Nat.le_of_eq hstart.symm, h1, Nat.le_trans h2 hnext, rfl⟩
        · obtain ⟨h1, h2⟩ := hwithin c hc p hp
          exact ⟨Nat.le_trans hforward h1, h2⟩
      · intro d hd p hp q hq
        obtain ⟨s, hs, rfl⟩ := hpassage p hp
        exact Nat.le_trans (hspan s hs).2 (hwithin d hd q hq).1

theorem start_head_ofParts {c : Capture} {p : Passage}
    (hc : (ofParts settings blocks t index scan parts).captures[0]? = some c)
    (hp : c.passage = some p) : p.span.start = scan.cursor := by
  cases parts with
  | nil => simp [ofParts] at hc
  | cons part rest =>
      obtain ⟨slot, literal⟩ := part
      simp only [ofParts, List.getElem?_cons_zero, Option.some.injEq] at hc
      subst hc
      obtain ⟨s, hs, rfl⟩ := Option.map_eq_some_iff.mp hp
      have hmoves :=
        Scan.moves_step settings blocks t scan slot.label (.ofLiteral literal) rest.isEmpty
      rw [hs] at hmoves
      exact hmoves.start_eq

/-- Two neighbouring captures are separated by the literal between their slots. -/
theorem ofParts_separated {i : Nat} {c d : Capture} {p q : Passage} {part : Slot × Text}
    (hc : (ofParts settings blocks t index scan parts).captures[i]? = some c)
    (hd : (ofParts settings blocks t index scan parts).captures[i + 1]? = some d)
    (hp : c.passage = some p) (hq : d.passage = some q) (hpart : parts[i]? = some part) :
    Separated blocks t part.2 p.span q.span := by
  induction parts generalizing index scan i with
  | nil => simp at hpart
  | cons first rest ih =>
      obtain ⟨slot, literal⟩ := first
      rw [ofParts, List.getElem?_cons_succ] at hd
      cases i with
      | succ i =>
          rw [ofParts, List.getElem?_cons_succ] at hc
          exact ih hc hd hpart
      | zero =>
          simp only [ofParts, List.getElem?_cons_zero, Option.some.injEq] at hc hpart
          subst hc
          subst hpart
          obtain ⟨s, hs, rfl⟩ := Option.map_eq_some_iff.mp hp
          have hmore : rest.isEmpty = false := by
            cases rest with
            | nil => simp [ofParts] at hd
            | cons _ _ => rfl
          have hmoves :=
            Scan.moves_step settings blocks t scan slot.label (.ofLiteral literal) rest.isEmpty
          rw [hs, hmore] at hmoves
          have hstart := start_head_ofParts hd hq
          rw [hmore] at hstart
          exact hmoves.separated hstart

/-- There is one capture for every slot, in their order.  Those that are located lie one behind the
other, each is what stands there, and two neighbours are separated by the literal between their
slots. -/
theorem find_tiles (settings : Settings) (template : Template) (t : Text) :
    let captures := (find settings template t).captures
    captures.map Capture.slot = template.slots ∧
    (∀ c ∈ captures, ∀ p ∈ c.passage, p.span.start ≤ p.span.stop ∧ p.span.stop ≤ t.length ∧
      p.raw = t.slice p.span.start p.span.stop) ∧
    captures.Pairwise (fun c d => ∀ p ∈ c.passage, ∀ q ∈ d.passage,
      p.span.stop ≤ q.span.start) ∧
    ∀ i c d p q literal, captures[i]? = some c → captures[i + 1]? = some d →
      c.passage = some p → d.passage = some q → template.literals[i + 1]? = some literal →
      Separated (fences t) t literal p.span q.span := by
  intro captures
  have hcursor := Scan.cursor_opening_le (fences t) t template.opening
  obtain ⟨hwithin, hpairwise⟩ :=
    @ofParts_ordered settings (fences t) t 0 _ template.parts hcursor
  refine ⟨map_slot_ofParts .., fun c hc p hp => (hwithin c hc p hp).2, hpairwise, ?_⟩
  intro i c d p q literal hc hd hp hq hliteral
  rw [Template.literals, List.getElem?_cons_succ, List.getElem?_map] at hliteral
  obtain ⟨part, hpart, rfl⟩ := Option.map_eq_some_iff.mp hliteral
  exact ofParts_separated hc hd hp hq hpart

/-- A paragraph break between the first two slots, and no space behind the second. -/
theorem find_tiles_heading :
    let template := Template.ofText (text "# \x7ba\x7d\n\n\x7bb\x7d \x7bc\x7d")
    let t := text "# T\n\nx"
    (find {} template t).captures.map (fun c => c.passage.map Passage.span) =
        [some ⟨1, 3⟩, some ⟨5, 6⟩, some ⟨6, 6⟩] ∧
      Separated (fences t) t (text "\n\n") ⟨1, 3⟩ ⟨5, 6⟩ ∧
      Separated (fences t) t (text " ") ⟨5, 6⟩ ⟨6, 6⟩ := by
  intro template t
  obtain ⟨-, -, -, hseparated⟩ := find_tiles {} template t
  let captures := (find {} template t).captures
  have ha : captures[0]?.bind Capture.passage = some (.between t 1 3) := by decide +kernel
  have hb : captures[1]?.bind Capture.passage = some (.between t 5 6) := by decide +kernel
  have hc : captures[2]?.bind Capture.passage = some (.between t 6 6) := by decide +kernel
  obtain ⟨a, ha, hpa⟩ := Option.bind_eq_some_iff.mp ha
  obtain ⟨b, hb, hpb⟩ := Option.bind_eq_some_iff.mp hb
  obtain ⟨c, hc, hpc⟩ := Option.bind_eq_some_iff.mp hc
  refine ⟨by decide +kernel, ?_, ?_⟩
  · exact hseparated 0 a b _ _ (text "\n\n") ha hb hpa hpb (by decide +kernel)
  · exact hseparated 1 b c _ _ (text " ") hb hc hpb hpc (by decide +kernel)

end Captures

end InverseTemplate
