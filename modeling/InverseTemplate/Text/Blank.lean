/-
# Blank characters

A blank is a character with the white-space property of Unicode, together with the four
information separators U+001C to U+001F.  Blanks decide where a tag ends a name, what is
trimmed from a captured value, and where a word of literal text begins and ends; a horizontal
blank (space or tab) is the narrower class that may move inside a line.
-/
import InverseTemplate.Text.Basic

namespace InverseTemplate

namespace Text

/-- Space or tab. -/
def isHorizontal (c : Char) : Bool := c = ' ' || c = '\t'

/-- White space of any kind, line ends included. -/
def isBlank (c : Char) : Bool :=
  let n := c.toNat
  (9 ≤ n && n ≤ 13) || (0x1C ≤ n && n ≤ 0x20) || n = 0x85 || n = 0xA0 || n = 0x1680 ||
    (0x2000 ≤ n && n ≤ 0x200A) || n = 0x2028 || n = 0x2029 || n = 0x202F || n = 0x205F ||
    n = 0x3000

/-- The text without the blanks at its start. -/
def stripLeft (t : Text) : Text := t.dropWhile isBlank

/-- The text without the blanks at its end. -/
def stripRight : Text → Text
  | [] => []
  | c :: r =>
      match stripRight r with
      | [] => if isBlank c then [] else [c]
      | d :: s => c :: d :: s

/-- The text without the blanks at either end. -/
def strip (t : Text) : Text := stripRight (stripLeft t)

/-- The blanks at the start of the text. -/
def leadingBlanks (t : Text) : Text := t.takeWhile isBlank

/-- The blanks at the end of the text. -/
def trailingBlanks (t : Text) : Text := t.drop (stripRight t).length

theorem isBlank_of_isHorizontal {c : Char} (h : isHorizontal c = true) : isBlank c = true := by
  simp only [isHorizontal, Bool.or_eq_true, decide_eq_true_eq] at h
  rcases h with rfl | rfl <;> decide

theorem leadingBlanks_append_stripLeft (t : Text) : leadingBlanks t ++ stripLeft t = t :=
  List.takeWhile_append_dropWhile

theorem stripRight_isPrefix (t : Text) : stripRight t <+: t := by
  induction t with
  | nil => exact List.prefix_refl _
  | cons c r ih =>
      rw [stripRight]
      cases hs : stripRight r with
      | nil =>
          dsimp only
          split
          · exact List.nil_prefix
          · exact ⟨r, rfl⟩
      | cons d s =>
          rw [hs] at ih
          exact List.cons_prefix_cons.mpr ⟨rfl, ih⟩

theorem stripRight_append_trailingBlanks (t : Text) : stripRight t ++ trailingBlanks t = t :=
  (List.prefix_iff_eq_append.mp (stripRight_isPrefix t))

end Text

end InverseTemplate
