/-
# Anchors

The literal text around a slot is what its value is found by.  Each literal becomes an anchor:
nothing at all, a gap made of blanks only, or a text.  A gap says how strong a break it is; a
text says what may stand around it and, piece by piece, what it consists of.

Blanks in a template are shapes and not characters: a run of blanks inside a text matches any
run of its shape, a line feed in front of a text asks for the start of a line and one behind it
for the end of a line, and other blanks on either side only ask that no word goes on there.

`Anchor.source` spells an anchor as a regular expression.  It is for people to read; matching
goes by the anchor itself.
-/
import InverseTemplate.Text.Blank

namespace InverseTemplate

/-! ## The type -/

/-- The strength of a gap. -/
inductive Gap where
  /-- A line end and at least one empty line. -/
  | paragraph
  /-- A line end. -/
  | line
  /-- Blanks within a line. -/
  | spaces
deriving DecidableEq

/-- A piece of the text of an anchor. -/
inductive AnchorPiece where
  /-- Characters that are not blank, matched as they are. -/
  | word (characters : Text)
  /-- Blanks with a line feed among them. -/
  | newLines
  /-- Blanks without any line feed. -/
  | spaces
deriving DecidableEq

/-- What a side of an anchor's text asks for. -/
inductive Guard where
  | nothing
  /-- The word does not go on. -/
  | wordEdge
  /-- The line begins, or ends, but for blanks. -/
  | lineEdge
deriving DecidableEq

/-- A literal with text in it. -/
structure TextAnchor where
  /-- The literal without the blanks around it. -/
  trimmed : Text
  before : Guard
  pieces : List AnchorPiece
  after : Guard
deriving DecidableEq

/-- An anchor. -/
inductive Anchor where
  | empty
  | gap (gap : Gap)
  | text (anchor : TextAnchor)
deriving DecidableEq

/-! ## From a literal -/

/-- The strength of the gap that blanks make. -/
def Gap.ofBlanks (blanks : Text) : Gap :=
  match blanks.count '\n' with
  | 0 => .spaces
  | 1 => .line
  | _ => .paragraph

/-- What blanks beside a text ask for. -/
def Guard.ofBlanks (blanks : Text) : Guard :=
  if blanks.contains '\n' then .lineEdge else if blanks = [] then .nothing else .wordEdge

/-- The words of a text and the runs of blanks between them. -/
def AnchorPiece.ofText (t : Text) : List AnchorPiece :=
  match t with
  | [] => []
  | c :: r =>
      if Text.isBlank c then
        (if (c :: r.takeWhile Text.isBlank).contains '\n' then newLines else spaces) ::
          ofText (r.dropWhile Text.isBlank)
      else
        word (c :: r.takeWhile fun d => !Text.isBlank d) ::
          ofText (r.dropWhile fun d => !Text.isBlank d)
termination_by t.length
decreasing_by
  all_goals
    rw [List.length_cons]
    exact Nat.lt_succ_of_le (List.dropWhile_sublist _).length_le

namespace Anchor

/-- The anchor that a literal makes. -/
def ofLiteral (literal : Text) : Anchor :=
  if literal = [] then .empty
  else
    let trimmed := Text.strip literal
    if trimmed = [] then .gap (.ofBlanks literal)
    else
      .text
        { trimmed
          before := .ofBlanks (Text.leadingBlanks literal)
          pieces := AnchorPiece.ofText trimmed
          after := .ofBlanks (Text.trailingBlanks literal) }

/-- Is the anchor a text? -/
def isText : Anchor → Bool
  | .text _ => true
  | _ => false

/-- The word for what sort of anchor it is. -/
def kindWord : Anchor → Text
  | .empty => InverseTemplate.text "empty"
  | .gap _ => InverseTemplate.text "break"
  | .text _ => InverseTemplate.text "text"

/-- The text of the anchor, if it has any. -/
def trimmed : Anchor → Text
  | .text anchor => anchor.trimmed
  | _ => []

end Anchor

/-! ## As a regular expression -/

/-- The characters with a meaning of their own in regular expressions. -/
def patternMarks : Text := text "()[]\x7b\x7d?*+-|^$\\.&~#"

/-- A word that stands for itself in a regular expression. -/
def escapedWord (word : Text) : Text :=
  word.flatMap fun c => if patternMarks.contains c then ['\\', c] else [c]

/-- The regular expression of a gap. -/
def Gap.source : Gap → Text
  | .paragraph => text "[ \\t]*\\r?\\n(?:[ \\t]*\\r?\\n)+"
  | .line => text "[ \\t]*\\r?\\n"
  | .spaces => text "[ \\t]+"

/-- The regular expression of a piece of a text. -/
def AnchorPiece.source : AnchorPiece → Text
  | .word characters => escapedWord characters
  | .newLines => text "[ \\t]*(?:\\r?\\n[ \\t]*)+"
  | .spaces => text "[ \\t]+"

/-- The regular expression of a text with its guards. -/
def TextAnchor.source (anchor : TextAnchor) : Text :=
  (match anchor.before with
    | .nothing => []
    | .wordEdge => text "(?<!\\S)"
    | .lineEdge => text "^[ \\t]*") ++
  anchor.pieces.flatMap AnchorPiece.source ++
  (match anchor.after with
    | .nothing => []
    | .wordEdge => text "(?!\\S)"
    | .lineEdge => text "[ \\t\\r]*$")

/-- The regular expression of an anchor. -/
def Anchor.source : Anchor → Text
  | .empty => []
  | .gap g => g.source
  | .text a => a.source

end InverseTemplate
