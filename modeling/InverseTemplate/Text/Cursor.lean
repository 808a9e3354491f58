/-
# Cursors and lines

A cursor is a place in a text together with everything after it.  Scanners move cursors
forward; the offset tells where they are and the rest is what they look at, so no scanner cuts
the text again to look at it.

`Cursor.IsIn` ties the two together: the rest is the text from the offset on.  Every move below
keeps it.

A text is also the sequence of its lines with a line feed between each two of them.  Only the
line feed separates lines; a carriage return in front of it is the last character of its line.
-/
import InverseTemplate.Text.Basic

namespace InverseTemplate

/-! ## Cursors -/

/-- A place in a text: how many characters lie before it, and the characters after it. -/
structure Cursor where
  offset : Nat
  rest : Text
deriving DecidableEq

namespace Cursor

/-- The place at the given offset.  Past the end of the text there is nothing left to look at. -/
def ofOffset (t : Text) (offset : Nat) : Cursor := ⟨offset, t.drop offset⟩

/-- The place `n` characters further on. -/
def advance (c : Cursor) (n : Nat) : Cursor := ⟨c.offset + n, c.rest.drop n⟩

/-- The place after the longest run of characters with a property. -/
def skipWhile (p : Char → Bool) (c : Cursor) : Cursor := c.advance (c.rest.takeWhile p).length

/-- The cursor is a place in the text `t`. -/
def IsIn (c : Cursor) (t : Text) : Prop := c.rest = t.drop c.offset

theorem isIn_ofOffset (t : Text) (offset : Nat) : (ofOffset t offset).IsIn t := rfl

theorem IsIn.advance {c : Cursor} {t : Text} (h : c.IsIn t) (n : Nat) : (c.advance n).IsIn t := by
  simp only [IsIn, Cursor.advance] at *
  rw [h, List.drop_drop]

@[simp] theorem rest_skipWhile (p : Char → Bool) (c : Cursor) :
    (c.skipWhile p).rest = c.rest.dropWhile p := by
  show c.rest.drop (c.rest.takeWhile p).length = c.rest.dropWhile p
  generalize c.rest = t
  induction t with
  | nil => rfl
  | cons d r ih => by_cases h : p d <;> simp [h, ih]

theorem offset_advance (c : Cursor) (n : Nat) : (c.advance n).offset = c.offset + n := rfl

theorem length_rest_advance (c : Cursor) (n : Nat) :
    (c.advance n).rest.length = c.rest.length - n :=
  List.length_drop ..

theorem length_rest_skipWhile_le (p : Char → Bool) (c : Cursor) :
    (c.skipWhile p).rest.length ≤ c.rest.length := by
  simp only [skipWhile, length_rest_advance]
  omega

end Cursor

/-! ## Lines -/

/-- A line without its line feed, and the offset at which it starts. -/
structure Line where
  offset : Nat
  content : Text
deriving DecidableEq

/-- The offset at which the line ends. -/
def Line.stop (line : Line) : Nat := line.offset + line.content.length

theorem Line.offset_le_stop (line : Line) : line.offset ≤ line.stop := Nat.le_add_right _ _

/-- Lines with the given contents, the first of them at the given offset. -/
def Line.placed (offset : Nat) : List Text → List Line
  | [] => []
  | content :: rest => ⟨offset, content⟩ :: placed (offset + content.length + 1) rest

theorem Line.map_content_placed (offset : Nat) (contents : List Text) :
    (placed offset contents).map content = contents := by
  induction contents generalizing offset with
  | nil => rfl
  | cons content rest ih => rw [placed, List.map_cons, ih]

/-- The lines of a text. -/
def Text.lines (t : Text) : List Line := Line.placed 0 (List.splitOn '\n' t)

end InverseTemplate
