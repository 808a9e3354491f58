/-
# Component tags

An opening tag is a less-than sign, a name that begins with a capital, attributes and a closing
mark.  An attribute is bound to an expression in braces, set to a quoted text, or bare; only
bound ones matter, and of a repeated one the last that is not blank counts.  A greater-than sign
inside braces or quotes does not end the tag.

A scan that fails still says how far it came, so that the broken tag can be kept as literal text
in one piece; an open brace or quote takes in everything up to the end.
-/
import InverseTemplate.Template.Slot
import InverseTemplate.Text.Blank
import InverseTemplate.Text.Cursor

namespace InverseTemplate

/-! ## Braces -/

/-- How many characters stand before the brace that closes a group, when the text begins inside
the group and `depth` more groups are open around the place. -/
def braceLength? (depth : Nat) : Text → Option Nat
  | [] => none
  | c :: r =>
      if c = '\x7b' then (braceLength? (depth + 1) r).map (· + 1)
      else if c = '\x7d' then
        match depth with
        | 0 => some 0
        | outer + 1 => (braceLength? outer r).map (· + 1)
      else (braceLength? depth r).map (· + 1)

/-- The offset of the brace that closes the group opened at the given offset. -/
def closingBrace? (t : Text) (offset : Nat) : Option Nat :=
  (braceLength? 0 (t.drop (offset + 1))).map (offset + 1 + ·)

/-! ## Tags -/

/-- An opening tag. -/
structure Tag where
  name : Text
  /-- The attributes bound to expressions. -/
  props : Entries Text
  /-- The offset just behind the closing mark. -/
  stop : Nat
  /-- Does the tag stand for a component without children? -/
  selfClosing : Bool
deriving DecidableEq

namespace Tag

/-- A character that an attribute's name may begin with. -/
def isAttributeStart (c : Char) : Bool := Text.isAsciiLetter c || c = '_'

/-- A character inside an attribute's name. -/
def isAttributeChar (c : Char) : Bool := Text.isWordChar c || c = ':' || c = '-'

/-- The attributes with one more of them bound to the content of its braces; blank content binds
nothing. -/
def bind (props : Entries Text) (attrName content : Text) : Entries Text :=
  let expression := Text.strip content
  if expression = [] then props else Entries.set props attrName expression

/-- The value of an attribute, at the place behind its equals sign: the attributes with the value
bound, and the place behind the value; or how far the scan came. -/
def scanValue (props : Entries Text) (attrName : Text) (c : Cursor) :
    Except Nat (Entries Text × Cursor) :=
  match c.rest with
  | [] => .error c.offset
  | first :: inner =>
      if first = '\x7b' then
        match braceLength? 0 inner with
        | some n => .ok (bind props attrName (inner.take n), c.advance (n + 2))
        | none => .error (c.offset + c.rest.length)
      else if first = '"' ∨ first = '\'' then
        match inner.findIdx? (· = first) with
        | some n => .ok (props, c.advance (n + 2))
        | none => .error (c.offset + c.rest.length)
      else .error c.offset

theorem length_scanValue {props props' : Entries Text} {attrName : Text} {c c' : Cursor}
    (h : scanValue props attrName c = .ok (props', c')) :
    c'.rest.length ≤ c.rest.length ∧ c.offset ≤ c'.offset := by
  unfold scanValue at h
  repeat' split at h
  all_goals cases h
  all_goals
    simp only [Cursor.advance, List.length_drop]
    omega

/-- The attributes and the closing mark of a tag whose name has been read: the tag, if it is
well formed, and how far the scan came. -/
def scanAttributes (name : Text) (props : Entries Text) (c : Cursor) : Option Tag × Nat :=
  let here := c.skipWhile Text.isBlank
  match _h : here.rest with
  | [] => (none, here.offset)
  | first :: r =>
      if first = '/' ∧ r.head? = some '>' then
        (some ⟨name, props, here.offset + 2, true⟩, here.offset + 2)
      else if first = '>' then (some ⟨name, props, here.offset + 1, false⟩, here.offset + 1)
      else if isAttributeStart first then
        let attrName := first :: r.takeWhile isAttributeChar
        let behind := (here.advance attrName.length).skipWhile Text.isBlank
        if behind.rest.head? = some '=' then
          match _hv : scanValue props attrName ((behind.advance 1).skipWhile Text.isBlank) with
          | .ok (props, next) => scanAttributes name props next
          | .error stop => (none, stop)
        else scanAttributes name props behind
      else (none, here.offset)
termination_by c.rest.length
decreasing_by
  all_goals
    have h1 := Cursor.length_rest_skipWhile_le Text.isBlank c
    have h2 : behind.rest.length ≤ (here.advance attrName.length).rest.length :=
      Cursor.length_rest_skipWhile_le Text.isBlank _
    have h3 : (here.advance attrName.length).rest.length = here.rest.length - attrName.length :=
      Cursor.length_rest_advance ..
    have h4 : 0 < here.rest.length := by rw [_h]; simp
    have h5 : 0 < attrName.length := by simp [attrName]
    have h6 : here.rest.length ≤ c.rest.length := h1
  · have h7 := (length_scanValue _hv).1
    have h8 := Cursor.length_rest_skipWhile_le Text.isBlank (behind.advance 1)
    have h9 := Cursor.length_rest_advance behind 1
    omega
  · show behind.rest.length < c.rest.length
    omega

/-- An opening tag at a place: the tag, if there is a well-formed one, and how far the scan
came. -/
def scanAt (c : Cursor) : Option Tag × Nat :=
  match c.rest with
  | '<' :: first :: r =>
      if 'A' ≤ first ∧ first ≤ 'Z' then
        let name := first :: r.takeWhile Text.isWordChar
        scanAttributes name [] (c.advance (name.length + 1))
      else (none, c.offset + 1)
  | _ => (none, c.offset + 1)

/-- An opening tag at an offset of a text. -/
def scan (t : Text) (offset : Nat) : Option Tag × Nat := scanAt (Cursor.ofOffset t offset)

/-- Where the literal text of a tag that did not become a slot ends: behind the tag, if only its
closing tag is missing, and otherwise where the scan stopped. -/
def brokenEnd (c : Cursor) : Nat :=
  match scanAt c with
  | (some tag, _) => tag.stop
  | (none, stop) => max stop (c.offset + 1)

theorem offset_lt_stop_of_scanAttributes {name : Text} {props : Entries Text} {c : Cursor}
    {tag : Tag} (h : (scanAttributes name props c).1 = some tag) : c.offset < tag.stop := by
  fun_induction scanAttributes name props c with
  | case1 | case5 | case7 => simp at h
  | case2 _ _ here | case3 _ _ here =>
      cases h
      simp only [here, Cursor.skipWhile, Cursor.advance]
      omega
  | case4 props c here first r hr _ _ _ attrName behind _ props' next hv ih =>
      have h1 := ih h
      have h2 := (length_scanValue hv).2
      simp only [behind, here, Cursor.skipWhile, Cursor.advance] at h2
      omega
  | case6 props c here first r hr _ _ _ attrName behind _ ih =>
      have h1 := ih h
      simp only [behind, here, Cursor.skipWhile, Cursor.advance] at h1
      omega

theorem offset_lt_stop_of_scanAt {c : Cursor} {tag : Tag} (h : (scanAt c).1 = some tag) :
    c.offset < tag.stop := by
  unfold scanAt at h
  split at h
  · split at h
    · have := offset_lt_stop_of_scanAttributes h
      simp only [Cursor.advance] at this
      omega
    · simp at h
  · simp at h

theorem offset_lt_brokenEnd (c : Cursor) : c.offset < brokenEnd c := by
  unfold brokenEnd
  split
  · next tag _ h => exact offset_lt_stop_of_scanAt (by rw [h])
  · omega

end Tag

end InverseTemplate
