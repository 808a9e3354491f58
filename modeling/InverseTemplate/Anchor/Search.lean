/-
# Searching forward

A search starts at an origin and answers with the leftmost hit from there on.  Guards still see
the text in front of the origin.  A hit that lies strictly inside a fenced code block is not
taken if the block began at or after the origin: the search goes on behind the block.  A block
that was open at the origin already belongs to the text around the slot, so hits in it count.
-/
import InverseTemplate.Anchor.Match
import InverseTemplate.Markdown.Span
import InverseTemplate.Settings

namespace InverseTemplate

namespace Matcher

/-- The leftmost hit in a text that begins at an offset, behind the given character. -/
def searchFrom (matcher : Matcher) (offset : Nat) (previous : Option Char) :
    Text → Option Span
  | [] => (matcher previous []).map fun n => ⟨offset, offset + n⟩
  | c :: r =>
      match matcher previous (c :: r) with
      | some n => some ⟨offset, offset + n⟩
      | none => searchFrom matcher (offset + 1) (some c) r

/-- The leftmost hit at or after an offset of a text. -/
def search (matcher : Matcher) (t : Text) (offset : Nat) : Option Span :=
  searchFrom matcher offset (if offset = 0 then none else t[offset - 1]?) (t.drop offset)

theorem le_start_of_searchFrom {matcher : Matcher} {offset : Nat} {previous : Option Char}
    {t : Text} {hit : Span} (h : searchFrom matcher offset previous t = some hit) :
    offset ≤ hit.start := by
  induction t generalizing offset previous with
  | nil =>
      rw [searchFrom, Option.map_eq_some_iff] at h
      obtain ⟨n, -, rfl⟩ := h
      exact Nat.le_refl _
  | cons c r ih =>
      rw [searchFrom] at h
      split at h
      · cases h
        exact Nat.le_refl _
      · exact Nat.le_of_succ_le (ih h)

end Matcher

/-- Where a search from the origin goes on after a hit at the offset, if the hit lies inside a
block that began at or after the origin. -/
def skipTarget? (blocks : List Span) (offset origin : Nat) : Option Nat :=
  (blocks.find? fun block =>
    origin ≤ block.start && block.start < offset && offset < block.stop).map Span.stop

theorem lt_of_skipTarget? {blocks : List Span} {offset origin resume : Nat}
    (h : skipTarget? blocks offset origin = some resume) : offset < resume := by
  rw [skipTarget?, Option.map_eq_some_iff] at h
  obtain ⟨block, hb, rfl⟩ := h
  have := List.find?_some hb
  simp only [Bool.and_eq_true, decide_eq_true_eq] at this
  exact this.2

/-- What a search found: the hit, if there is one, and the hits inside blocks that were passed
over before it. -/
structure Found where
  hit : Option Span
  skipped : List Nat
deriving DecidableEq

/-- A search from an origin that has come as far as `offset`. -/
def searchOn (matcher : Matcher) (blocks : List Span) (t : Text) (origin offset : Nat) : Found :=
  if offset ≤ t.length then
    match _h : matcher.search t offset with
    | none => ⟨none, []⟩
    | some hit =>
        match _hs : skipTarget? blocks hit.start origin with
        | none => ⟨some hit, []⟩
        | some resume =>
            let found := searchOn matcher blocks t origin resume
            { found with skipped := hit.start :: found.skipped }
  else ⟨none, []⟩
termination_by t.length + 1 - offset
decreasing_by
  have h1 := Matcher.le_start_of_searchFrom _h
  have h2 := lt_of_skipTarget? _hs
  omega

/-- The search for a matcher's hit from an origin on. -/
def searchOutside (matcher : Matcher) (blocks : List Span) (t : Text) (origin : Nat) : Found :=
  searchOn matcher blocks t origin origin

/-- The first offset from the given one on at which there is no blank. -/
def contentStart (t : Text) (offset : Nat) : Nat :=
  offset + ((t.drop offset).takeWhile Text.isBlank).length

/-- Where the section ends that goes on at the offset: at the next line that begins a section,
or at the end of the text. -/
def sectionEnd (settings : Settings) (blocks : List Span) (t : Text) (offset : Nat) : Nat :=
  match (searchOutside (settings.sectionBreak t) blocks t offset).hit with
  | some hit => hit.start
  | none => t.length

end InverseTemplate
