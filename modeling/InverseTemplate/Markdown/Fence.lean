/-
# Fenced code blocks

A fence opens at a line that starts with at least three backticks or tildes, after at most three
horizontal blanks.  It closes at the next line that holds nothing but at least as many of the
same mark, again after at most three blanks, and blanks behind them.  A fence that is not closed
runs to the end of the text.  The span of a fence covers both of its lines, without the line
feed behind the closing one.
-/
import InverseTemplate.Markdown.Span
import InverseTemplate.Text.Blank
import InverseTemplate.Text.Cursor

namespace InverseTemplate

namespace Fence

/-- The backtick. -/
def backtick : Char := '\x60'

/-- What opened a fence: which mark, and how many of it. -/
structure Marker where
  mark : Char
  width : Nat
deriving DecidableEq

/-- A line without its indentation, if that is at most three horizontal blanks. -/
def unindented? (content : Text) : Option Text :=
  if (content.takeWhile Text.isHorizontal).length ≤ 3 then
    some (content.dropWhile Text.isHorizontal)
  else none

/-- The marker of a line that opens a fence. -/
def opening? (content : Text) : Option Marker :=
  match unindented? content with
  | some (c :: r) =>
      let width := (r.takeWhile (· = c)).length + 1
      if (c = backtick ∨ c = '~') ∧ 3 ≤ width then some ⟨c, width⟩ else none
  | _ => none

/-- Does the line close a fence that the marker opened? -/
def closes (marker : Marker) (content : Text) : Bool :=
  match unindented? content with
  | some r =>
      marker.width ≤ (r.takeWhile (· = marker.mark)).length &&
        (r.dropWhile (· = marker.mark)).all Text.isHorizontal
  | none => false

/-- The first line that opens a fence: where it starts, its marker, and the lines after it. -/
def seekOpening : List Line → Option (Nat × Marker × List Line)
  | [] => none
  | line :: rest =>
      match opening? line.content with
      | some marker => some (line.offset, marker, rest)
      | none => seekOpening rest

/-- The first line that closes the fence: where it ends, and the lines after it. -/
def seekClosing (marker : Marker) : List Line → Option (Nat × List Line)
  | [] => none
  | line :: rest =>
      if closes marker line.content then some (line.stop, rest) else seekClosing marker rest

theorem length_seekOpening {lines rest : List Line} {start : Nat} {marker : Marker}
    (h : seekOpening lines = some (start, marker, rest)) : rest.length < lines.length := by
  induction lines with
  | nil => simp [seekOpening] at h
  | cons line more ih =>
      rw [seekOpening] at h
      split at h
      · cases h
        simp
      · exact Nat.lt_succ_of_lt (ih h)

theorem length_seekClosing {marker : Marker} {lines rest : List Line} {stop : Nat}
    (h : seekClosing marker lines = some (stop, rest)) : rest.length < lines.length := by
  induction lines with
  | nil => simp [seekClosing] at h
  | cons line more ih =>
      rw [seekClosing] at h
      split at h
      · cases h
        simp
      · exact Nat.lt_succ_of_lt (ih h)

/-- The fences of a list of lines; `total` is where the text ends. -/
def ofLines (total : Nat) (lines : List Line) : List Span :=
  match h : seekOpening lines with
  | none => []
  | some (start, marker, body) =>
      match hc : seekClosing marker body with
      | none => [⟨start, total⟩]
      | some (stop, rest) =>
          have := length_seekOpening h
          have := length_seekClosing hc
          ⟨start, stop⟩ :: ofLines total rest
termination_by lines.length

end Fence

/-- The fenced code blocks of a text, in their order. -/
def fences (t : Text) : List Span := Fence.ofLines t.length t.lines

end InverseTemplate
