/-
# Inline code spans

A code span begins with a run of backticks and ends with the next run of exactly the same
length.  Where no later run has the length of a whole run, the run may still open a span with
the last so many of its backticks: the longest such part that has a partner counts.  What lies
between the two runs is code, line ends and shorter or longer runs included.
-/
import InverseTemplate.Markdown.Fence

namespace InverseTemplate

namespace CodeSpan

/-- A longest run of backticks. -/
structure Ticks where
  offset : Nat
  width : Nat
deriving DecidableEq

/-- Where the run ends. -/
def Ticks.stop (run : Ticks) : Nat := run.offset + run.width

/-- The runs of backticks of a text that starts at the given offset. -/
def runsFrom (offset : Nat) (t : Text) : List Ticks :=
  match t with
  | [] => []
  | c :: r =>
      if c = Fence.backtick then
        let more := (r.takeWhile (· = Fence.backtick)).length
        ⟨offset, more + 1⟩ :: runsFrom (offset + more + 1) (r.drop more)
      else runsFrom (offset + 1) r
termination_by t.length
decreasing_by all_goals (simp only [List.length_cons, List.length_drop]; omega)

/-- The first run of exactly the given width, and the runs after it. -/
def seek (width : Nat) : List Ticks → Option (Ticks × List Ticks)
  | [] => none
  | run :: rest => if run.width = width then some (run, rest) else seek width rest

theorem length_seek {width : Nat} {runs rest : List Ticks} {run : Ticks}
    (h : seek width runs = some (run, rest)) : rest.length < runs.length := by
  induction runs with
  | nil => simp [seek] at h
  | cons first more ih =>
      rw [seek] at h
      split at h
      · cases h
        simp
      · exact Nat.lt_succ_of_lt (ih h)

/-- The span that a run opens with its last `width` backticks, or with fewer if these have no
partner, and the runs after its end. -/
def openedBy (run : Ticks) (rest : List Ticks) : Nat → Option (Span × List Ticks)
  | 0 => none
  | width + 1 =>
      match seek (width + 1) rest with
      | some (closer, after) => some (⟨run.stop - (width + 1), closer.stop⟩, after)
      | none => openedBy run rest width

theorem length_openedBy {run : Ticks} {rest after : List Ticks} {width : Nat} {span : Span}
    (h : openedBy run rest width = some (span, after)) : after.length < rest.length := by
  induction width with
  | zero => simp [openedBy] at h
  | succ width ih =>
      rw [openedBy] at h
      split at h
      · next hs =>
          cases h
          exact length_seek hs
      · exact ih h

/-- The code spans that the runs form, in their order. -/
def ofRuns (runs : List Ticks) : List Span :=
  match runs with
  | [] => []
  | run :: rest =>
      match h : openedBy run rest run.width with
      | some (span, after) =>
          have := length_openedBy h
          span :: ofRuns after
      | none => ofRuns rest
termination_by runs.length
decreasing_by all_goals (simp only [List.length_cons]; omega)

end CodeSpan

/-- The inline code spans of a text, in their order, wherever they lie. -/
def codeSpans (t : Text) : List Span := CodeSpan.ofRuns (CodeSpan.runsFrom 0 t)

/-- The regions of a text that are code and therefore literal: its fences, and its code spans
that do not start inside a fence.  The two kinds may overlap, and both are kept. -/
def codeRegions (t : Text) : List Span :=
  let blocks := fences t
  let spans := (codeSpans t).filter fun s => (Span.containing? blocks s.start).isNone
  (blocks ++ spans).mergeSort Span.le

end InverseTemplate
