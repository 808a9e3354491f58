/-
# Templates

A template is literal text with slots in it: one literal in front, and behind every slot another
one, so there is always one literal more than there are slots.

The text is read from left to right in pieces.  An opening brace or a less-than sign begins a
slot or a comment if what follows is well formed, unless it lies in a code region, which is
literal up to the region's end.  What is malformed or empty stays literal.  Comments leave
nothing behind, so the literals around one of them become one.

The sources of the pieces, comments included, are the whole text: `flatMap_source_pieces`.
-/
import InverseTemplate.Markdown.CodeSpan
import InverseTemplate.Template.Block

namespace InverseTemplate

/-! ## Pieces -/

/-- A piece of a template. -/
inductive Piece where
  | literal (source : Text)
  | comment (source : Text)
  | slot (slot : Slot)
deriving DecidableEq

/-- The characters that make a piece. -/
def Piece.source : Piece → Text
  | .literal source => source
  | .comment source => source
  | .slot s => s.raw

namespace Piece

/-- The piece that begins with an opening brace; `c` is its place and `inner` what follows the
brace.  Without a closing brace, and around nothing but blanks, the brace is literal. -/
def ofBrace (c : Cursor) (inner : Text) : Piece :=
  match braceLength? 0 inner with
  | none => .literal ['\x7b']
  | some n =>
      let expression := Text.strip (inner.take n)
      if Expression.isComment expression then .comment (c.rest.take (n + 2))
      else if expression = [] then .literal ['\x7b']
      else
        .slot
          { content := .ofExpression expression
            raw := c.rest.take (n + 2)
            start := c.offset
            stop := c.offset + n + 2 }

/-- The piece that begins with a less-than sign. -/
def ofAngle (c : Cursor) : Piece :=
  match componentAt? c with
  | some s => .slot s
  | none => .literal (c.rest.take (Tag.brokenEnd c - c.offset))

/-- The piece that begins at a place; `first` is the character there and `more` what follows. -/
def ofCursor (regions : List Span) (c : Cursor) (first : Char) (more : Text) : Piece :=
  if first = '\x7b' ∨ first = '<' then
    match Span.containing? regions c.offset with
    | some region => .literal (c.rest.take (region.stop - c.offset))
    | none => if first = '\x7b' then ofBrace c more else ofAngle c
  else .literal [first]

end Piece

/-- The pieces from a place on. -/
def piecesFrom (regions : List Span) (c : Cursor) : List Piece :=
  match _h : c.rest with
  | [] => []
  | first :: more =>
      let piece := Piece.ofCursor regions c first more
      piece :: piecesFrom regions (c.advance (max piece.source.length 1))
termination_by c.rest.length
decreasing_by
  have h : 0 < c.rest.length := by rw [_h]; simp
  rw [Cursor.length_rest_advance]
  omega

theorem Piece.source_ofCursor (regions : List Span) {c : Cursor} {first : Char} {more : Text}
    (h : c.rest = first :: more) :
    ∃ n, 0 < n ∧ (Piece.ofCursor regions c first more).source = c.rest.take n := by
  unfold Piece.ofCursor
  split
  · split
    · next region hr =>
        have := Span.holds_of_containing? hr
        exact ⟨region.stop - c.offset, by omega, rfl⟩
    · split
      · next hf =>
          unfold Piece.ofBrace
          split
          · exact ⟨1, by omega, by simp [h, hf, Piece.source]⟩
          · next n _ =>
              dsimp only
              split
              · exact ⟨n + 2, by omega, rfl⟩
              · split
                · exact ⟨1, by omega, by simp [h, hf, Piece.source]⟩
                · exact ⟨n + 2, by omega, rfl⟩
      · unfold Piece.ofAngle
        split
        · next s hs =>
            obtain ⟨-, hlt, hraw⟩ := offset_lt_stop_of_componentAt? hs
            exact ⟨s.stop - s.start, by omega, hraw⟩
        · exact ⟨Tag.brokenEnd c - c.offset,
            Nat.sub_pos_of_lt (Tag.offset_lt_brokenEnd c), rfl⟩
  · exact ⟨1, by omega, by simp [h, Piece.source]⟩

/-- Reading a template in pieces loses nothing: their sources are the text. -/
theorem flatMap_source_piecesFrom (regions : List Span) (c : Cursor) :
    (piecesFrom regions c).flatMap Piece.source = c.rest := by
  fun_induction piecesFrom regions c with
  | case1 c h => simp [h]
  | case2 c first more h piece ih =>
      obtain ⟨n, hn, hs⟩ := Piece.source_ofCursor regions h
      have hlen : piece.source.length = min n c.rest.length := by
        rw [show piece.source = c.rest.take n from hs, List.length_take]
      have hpos : 0 < c.rest.length := by rw [h]; simp
      rw [List.flatMap_cons, ih, Nat.max_eq_left (by omega), hlen]
      show piece.source ++ c.rest.drop (min n c.rest.length) = c.rest
      rw [show piece.source = c.rest.take n from hs, List.take_eq_take_min,
        List.take_append_drop]

/-- The pieces of a template's text. -/
def pieces (t : Text) : List Piece := piecesFrom (codeRegions t) (Cursor.ofOffset t 0)

theorem flatMap_source_pieces (t : Text) : (pieces t).flatMap Piece.source = t :=
  flatMap_source_piecesFrom ..

/-! ## Templates -/

/-- A template: the literal in front, and every slot with the literal behind it. -/
structure Template where
  opening : Text
  parts : List (Slot × Text)
deriving DecidableEq

namespace Template

/-- The template without anything in it. -/
def empty : Template := ⟨[], []⟩

/-- A template with one more piece in front. -/
def cons (piece : Piece) (rest : Template) : Template :=
  match piece with
  | .literal source => { rest with opening := source ++ rest.opening }
  | .comment _ => rest
  | .slot slot => ⟨[], (slot, rest.opening) :: rest.parts⟩

/-- The template that the pieces make. -/
def ofPieces (pieces : List Piece) : Template := pieces.foldr cons empty

/-- The template that a text spells. -/
def ofText (t : Text) : Template := ofPieces (InverseTemplate.pieces t)

/-- The slots in their order. -/
def slots (template : Template) : List Slot := template.parts.map Prod.fst

/-- The literals in their order. -/
def literals (template : Template) : List Text := template.opening :: template.parts.map Prod.snd

theorem length_literals (template : Template) :
    template.literals.length = template.slots.length + 1 := by
  simp [literals, slots]

end Template

end InverseTemplate
