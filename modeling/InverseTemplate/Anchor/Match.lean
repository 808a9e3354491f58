/-
# Matching at a place

A matcher looks at the character in front of a place and at the text from the place on, and
answers how many characters it takes.  All matchers here take as much as they can and never try
again with less: the character behind a run of blanks is never a blank, so taking less could
not succeed where taking all of it fails.
-/
import InverseTemplate.Anchor.Basic

namespace InverseTemplate

/-- What is looked for at a place: given the character in front, if there is one, and the text
from there on, how many characters it takes. -/
abbrev Matcher : Type := Option Char → Text → Option Nat

/-! ## Runs of blanks -/

/-- How many horizontal blanks the text begins with. -/
def horizontalLength (t : Text) : Nat := (t.takeWhile Text.isHorizontal).length

/-- A line feed, with or without a carriage return in front. -/
def lineFeed? : Text → Option Nat
  | '\n' :: _ => some 1
  | '\r' :: '\n' :: _ => some 2
  | _ => none

/-- Horizontal blanks up to the end of the line, and the line's end. -/
def blankLine? (t : Text) : Option Nat :=
  let blanks := horizontalLength t
  (lineFeed? (t.drop blanks)).map (blanks + ·)

/-- How many characters as many repetitions as possible take. -/
def repeated (unit : Text → Option Nat) (t : Text) : Nat :=
  match _h : t with
  | [] => 0
  | _ :: _ =>
      match unit t with
      | some (n + 1) => n + 1 + repeated unit (t.drop (n + 1))
      | _ => 0
termination_by t.length
decreasing_by
  subst _h
  simp only [List.length_drop, List.length_cons]
  omega

/-- A line end with the blanks in front of the next line's text. -/
def indentedLineFeed? (t : Text) : Option Nat :=
  (lineFeed? t).map fun n => n + horizontalLength (t.drop n)

/-- How many characters a gap takes. -/
def Gap.length? (gap : Gap) (t : Text) : Option Nat :=
  match gap with
  | .line => blankLine? t
  | .paragraph =>
      match blankLine? t with
      | some n =>
          let more := repeated blankLine? (t.drop n)
          if more = 0 then none else some (n + more)
      | none => none
  | .spaces =>
      let n := horizontalLength t
      if n = 0 then none else some n

/-- How many characters a piece of an anchor's text takes. -/
def AnchorPiece.length? (piece : AnchorPiece) (t : Text) : Option Nat :=
  match piece with
  | .word characters => if characters.isPrefixOf t then some characters.length else none
  | .newLines =>
      let blanks := horizontalLength t
      let lines := repeated indentedLineFeed? (t.drop blanks)
      if lines = 0 then none else some (blanks + lines)
  | .spaces => Gap.length? .spaces t

/-- How many characters the pieces take, one after another. -/
def AnchorPiece.lengthAll? : List AnchorPiece → Text → Option Nat
  | [], _ => some 0
  | piece :: pieces, t =>
      match piece.length? t with
      | some n => (lengthAll? pieces (t.drop n)).map (n + ·)
      | none => none

/-! ## Guards -/

/-- Does a line begin behind the character? -/
def beginsLine : Option Char → Bool
  | none => true
  | some c => c = '\n'

/-- How many characters the guard in front of a text takes. -/
def Guard.before? (guard : Guard) : Matcher := fun previous t =>
  match guard with
  | .nothing => some 0
  | .wordEdge => if previous.all Text.isBlank then some 0 else none
  | .lineEdge => if beginsLine previous then some (horizontalLength t) else none

/-- Is the character a horizontal blank or a carriage return? -/
def isLineTail (c : Char) : Bool := Text.isHorizontal c || c = '\r'

/-- How many characters the guard behind a text takes. -/
def Guard.after? (guard : Guard) (t : Text) : Option Nat :=
  match guard with
  | .nothing => some 0
  | .wordEdge => if t.head?.all Text.isBlank then some 0 else none
  | .lineEdge =>
      let tail := (t.takeWhile isLineTail).length
      if (t.drop tail).head?.all (· = '\n') then some tail else none

/-! ## Anchors and headings -/

/-- An anchor's text with its guards. -/
def TextAnchor.matcher (anchor : TextAnchor) : Matcher := fun previous t => do
  let lead ← anchor.before.before? previous t
  let body ← AnchorPiece.lengthAll? anchor.pieces (t.drop lead)
  let tail ← anchor.after.after? (t.drop (lead + body))
  return lead + body + tail

/-- A gap, wherever it stands. -/
def Gap.matcher (gap : Gap) : Matcher := fun _ t => gap.length? t

/-- What an anchor looks for; an empty one looks for nothing. -/
def Anchor.matcher? : Anchor → Option Matcher
  | .empty => none
  | .gap g => some g.matcher
  | .text a => some a.matcher

/-- A line that begins a section unless the settings say otherwise: up to three horizontal blanks,
one to six number signs, and a blank or the line's end. -/
def headingLine : Matcher := fun previous t =>
  let indent := horizontalLength t
  let heading := t.drop indent
  let marks := (heading.takeWhile (· = '#')).length
  let behind := heading.drop marks
  if beginsLine previous ∧ indent ≤ 3 ∧ 1 ≤ marks ∧ marks ≤ 6 then
    match behind with
    | [] => some (indent + marks)
    | c :: _ =>
        if Text.isHorizontal c then some (indent + marks + 1)
        else if c = '\n' then some (indent + marks)
        else none
  else none

end InverseTemplate
