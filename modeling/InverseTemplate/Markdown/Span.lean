/-
# Spans of offsets

A span covers the offsets from its start up to, and without, its end.  Lists of spans are kept
in the order of their starts.  A lookup asks the last span that starts at or before an offset
and no other one: when spans overlap, a later span hides the end of an earlier one.
-/
import InverseTemplate.Text.Basic

namespace InverseTemplate

/-- The offsets from `start` up to, and without, `stop`. -/
structure Span where
  start : Nat
  stop : Nat
deriving DecidableEq

namespace Span

/-- The order of spans: by their starts, and by their ends when they start together. -/
def le (a b : Span) : Bool := a.start < b.start || (a.start = b.start && a.stop ≤ b.stop)

/-- Is the offset in the span? -/
def holds (s : Span) (offset : Nat) : Bool := s.start ≤ offset && offset < s.stop

theorem holds_iff {s : Span} {offset : Nat} :
    s.holds offset = true ↔ s.start ≤ offset ∧ offset < s.stop := by
  simp only [holds, Bool.and_eq_true, decide_eq_true_eq]

/-- The last span that starts at or before the offset, if the offset is in it. -/
def containing? (spans : List Span) (offset : Nat) : Option Span :=
  match (spans.filter fun s => s.start ≤ offset).getLast? with
  | some s => if offset < s.stop then some s else none
  | none => none

theorem holds_of_containing? {spans : List Span} {offset : Nat} {s : Span}
    (h : containing? spans offset = some s) : s ∈ spans ∧ s.start ≤ offset ∧ offset < s.stop := by
  unfold containing? at h
  split at h
  · next t ht =>
      have hmem := List.mem_of_getLast? ht
      rw [List.mem_filter, decide_eq_true_eq] at hmem
      split at h
      · next hlt =>
          cases h
          exact ⟨hmem.1, hmem.2, hlt⟩
      · exact absurd h (by simp)
  · exact absurd h (by simp)

end Span

end InverseTemplate
