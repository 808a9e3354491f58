/-
# Tokens of the flow notation

A text in flow notation is made of brackets, braces, commas, colons, question marks and scalars;
blanks, line ends and comments between them mean nothing, except that a colon has to stand close
to a key that no question mark announces.

A scalar is quoted or plain.  All of them may go on over several lines: a line end is folded
into a blank, further ones are kept, and blanks around them are dropped.  In double quotes
escapes stand for characters; one for half a character only makes sense beside one for the
other half, and a text with such halves is kept apart, because it has no bytes.

Marks of a document, three dashes or three points at the beginning of a line, are tokens too.
-/
import InverseTemplate.Flow.Scalar
import InverseTemplate.Value.Reader

namespace InverseTemplate

namespace Flow

/-! ## Characters -/

/-- Does a line end here? -/
def isBreak (c : Char) : Bool :=
  c = '\n' || c.toNat = 0x85 || c.toNat = 0x2028 || c.toNat = 0x2029

/-- The line end that stands for one of its kind. -/
def lineBreak (c : Char) : Char := if c.toNat = 0x85 then '\n' else c

/-- A blank, a line end, or nothing more. -/
def isGap : Option Char → Bool
  | none => true
  | some c => c = ' ' || c = '\t' || isBreak c

/-- Does a mark of a document stand at the beginning of a line? -/
def startsMark (line : Text) : Bool :=
  (line.take 3 = text "---" || line.take 3 = text "...") && isGap (line.drop 3).head?

/-- Does a later line begin with a mark of a document? -/
def holdsMark : Text → Bool
  | [] => false
  | c :: r => (isBreak c && startsMark r) || holdsMark r

/-! ## Folding -/

/-- What a scalar is made of. -/
inductive Piece where
  | char (c : Char)
  /-- Half a character, by its number. -/
  | half (unit : Nat)
  | blank (c : Char)
  | lineBreak (c : Char)
  /-- A line end that is escaped. -/
  | joint
deriving DecidableEq

/-- A character that stands for itself. -/
def Piece.ofChar (c : Char) : Piece :=
  if c = ' ' || c = '\t' then .blank c
  else if isBreak c then .lineBreak (Flow.lineBreak c)
  else .char c

/-- Is the piece half a character? -/
def Piece.isHalf : Piece → Bool
  | .half _ => true
  | _ => false

/-- Is the piece part of the text proper? -/
def Piece.isSolid : Piece → Bool
  | .char _ => true
  | .half _ => true
  | .joint => true
  | .blank _ => false
  | .lineBreak _ => false

/-- What has been met since the last solid piece. -/
inductive Loose where
  | blanks (t : Text)
  /-- A first line end, unless it was escaped, and further ones. -/
  | breaks (first : Option Char) (more : Text)

/-- What is left of it. -/
def Loose.folded : Loose → Text
  | .blanks t => t
  | .breaks none more => more
  | .breaks (some c) more => if c ≠ '\n' then c :: more else if more = [] then [' '] else more

/-- One more piece that is not solid. -/
def Loose.add (loose : Loose) : Piece → Loose
  | .blank c => match loose with
      | .blanks t => .blanks (t ++ [c])
      | .breaks first more => .breaks first more
  | .lineBreak c => match loose with
      | .blanks _ => .breaks (some c) []
      | .breaks first more => .breaks first (more ++ [c])
  | _ => loose

/-- The character that stands for something that is none. -/
def replacement : Char := Char.ofNat 0xFFFD

/-- The character that two halves make. -/
def united (high low : Nat) : Char :=
  if Json.isHighUnit high && Json.isLowUnit low then
    Char.ofNat (0x10000 + (high - 0xD800) * 0x400 + (low - 0xDC00))
  else replacement

/-- The text of the pieces; `high` is a half that waits for the other one. -/
def folded (loose : Loose) (high : Option Nat) : List Piece → Text
  | [] => loose.folded
  | .char c :: r => loose.folded ++ c :: folded (.blanks []) none r
  | .joint :: r => loose.folded ++ folded (.breaks none []) none r
  | .half unit :: r => match high with
      | some h => loose.folded ++ united h unit :: folded (.blanks []) none r
      | none => loose.folded ++ folded (.blanks []) (some unit) r
  | piece :: r => folded (loose.add piece) none r

/-- The text that the pieces of a scalar spell. -/
def spelled (pieces : List Piece) : Text := folded (.blanks []) none pieces

/-! ## Quoted scalars -/

/-- The piece for a character by its number. -/
def pieceOf? (n : Nat) : Option Piece :=
  if Json.isHighUnit n || Json.isLowUnit n then some (.half n)
  else if n ≤ 0x10FFFF then some (.char (Char.ofNat n))
  else none

/-- The piece for a character by its number in so many hexadecimal digits. -/
def numbered? (width : Nat) (r : Text) : Option (Piece × Nat) := do
  let digits ← (r.take width).mapM digitValue?
  if digits.length = width then
    return (← pieceOf? (digits.foldl (fun n d => 16 * n + d) 0), width)
  else none

/-- The letters of the escapes that stand for one character, with these characters. -/
def namedEscapes : List (Char × Nat) :=
  [('0', 0x00), ('a', 0x07), ('b', 0x08), ('t', 0x09), ('\t', 0x09), ('n', 0x0A), ('v', 0x0B),
   ('f', 0x0C), ('r', 0x0D), ('e', 0x1B), (' ', 0x20), ('"', 0x22), ('\\', 0x5C), ('/', 0x2F),
   ('N', 0x85), ('_', 0xA0), ('L', 0x2028), ('P', 0x2029)]

/-- The piece that an escape stands for, and the number of characters behind its letter that
belong to it. -/
def escape? (e : Char) (r : Text) : Option (Piece × Nat) :=
  if e = 'x' then numbered? 2 r
  else if e = 'u' then numbered? 4 r
  else if e = 'U' then numbered? 8 r
  else if isBreak e then some (.joint, 0)
  else (namedEscapes.lookup e).map fun n => (.char (Char.ofNat n), 0)

/-- The pieces up to the closing double quote, and the number of characters up to there. -/
def doubleQuoted (t : Text) : Option (List Piece × Nat) :=
  match t with
  | [] => none
  | ['\\'] => none
  | '\\' :: e :: r => do
      let (piece, n) ← escape? e r
      let (more, width) ← doubleQuoted (r.drop n)
      return (piece :: more, width + n + 2)
  | c :: r =>
      if c = '"' then some ([], 1)
      else do
        let (more, width) ← doubleQuoted r
        return (Piece.ofChar c :: more, width + 1)
termination_by t.length
decreasing_by all_goals simp only [List.length_cons, List.length_drop]; omega

/-- The pieces up to the closing single quote, and the number of characters up to there. -/
def singleQuoted : Text → Option (List Piece × Nat)
  | [] => none
  | '\'' :: '\'' :: r => do
      let (more, width) ← singleQuoted r
      return (.char '\'' :: more, width + 2)
  | c :: r =>
      if c = '\'' then some ([], 1)
      else do
        let (more, width) ← singleQuoted r
        return (Piece.ofChar c :: more, width + 1)

/-! ## Plain scalars -/

/-- The marks that no plain scalar begins with. -/
def marks : List Char :=
  ['-', '?', ':', ',', '[', ']', '\x7b', '\x7d', '#', '&', '*', '!', '|', '>', '\'', '"', '%',
   '@', '\x60']

/-- The marks that end a plain scalar inside brackets or braces. -/
def innerMarks : List Char := [',', '[', ']', '\x7b', '\x7d']

/-- Can a plain scalar begin here? -/
def startsPlain (inside : Bool) (c : Char) (next : Option Char) : Bool :=
  !(isGap (some c) || marks.contains c) ||
    (!isGap next && (c = '-' || (!inside && (c = '?' || c = ':'))))

/-- Does a colon end the plain scalar that it stands in? -/
def endsAtColon (inside : Bool) (next : Option Char) : Bool :=
  isGap next || (inside && next.any innerMarks.contains)

/-- The number of characters that a plain scalar takes, with the blanks and line ends behind
it. -/
def plainWidth (inside afterGap : Bool) : Text → Nat
  | [] => 0
  | c :: r =>
      if c = ' ' then plainWidth inside true r + 1
      else if isBreak c then if startsMark r then 1 else plainWidth inside true r + 1
      else if c = '\t' || (c = '#' && afterGap) || (c = ':' && endsAtColon inside r.head?) ||
          (inside && (c = '?' || innerMarks.contains c)) then 0
      else plainWidth inside false r + 1

/-- The text of a plain scalar with what stands behind it. -/
def plainText (source : Text) : Text :=
  let pieces := source.map Piece.ofChar
  spelled (pieces.reverse.dropWhile fun piece => !piece.isSolid).reverse

/-! ## Scalars and tokens -/

/-- A scalar. -/
structure Scalar where
  value : Value
  /-- The number of its characters. -/
  width : Nat
  oneLine : Bool
  /-- Is it spelled with halves of characters? -/
  halved : Bool

/-- The tokens. -/
inductive Token where
  | openList
  | closeList
  | openMap
  | closeMap
  | comma
  | question
  /-- A colon so many characters behind the token before it, or on a later line. -/
  | colon (distance : Option Nat)
  | scalar (s : Scalar)
  | documentStart
  | documentEnd

/-- The quoted scalar that pieces make and that takes the source. -/
def quoted? (pieces : List Piece) (source : Text) : Option Scalar :=
  if holdsMark source then none
  else
    some
      { value := .text (spelled pieces)
        width := source.length
        oneLine := !source.any isBreak
        halved := pieces.any Piece.isHalf }

/-- The scalar at the beginning of a text. -/
def scalar? (inside : Bool) (t : Text) : Option Scalar :=
  match t with
  | [] => none
  | c :: r =>
      if c = '"' then do
        let (pieces, width) ← doubleQuoted r
        quoted? pieces (t.take (width + 1))
      else if c = '\'' then do
        let (pieces, width) ← singleQuoted r
        quoted? pieces (t.take (width + 1))
      else if startsPlain inside c r.head? then do
        let source := t.take (plainWidth inside false t)
        return {
          value := ← plain? (plainText source)
          width := source.length
          oneLine := !source.any isBreak
          halved := false }
      else none

/-- The mark of a document at the beginning of a line. -/
def markToken? (t : Text) : Option Token :=
  if !startsMark t then none
  else if t.head? = some '-' then some .documentStart
  else some .documentEnd

/-- The token of a single character, with the number of things that are open behind it.  Question
marks and colons are tokens only inside brackets and braces. -/
def charToken? (level : Nat) (distance : Option Nat) (c : Char) : Option (Token × Nat) :=
  if c = '[' then some (.openList, level + 1)
  else if c = ']' then some (.closeList, level - 1)
  else if c = '\x7b' then some (.openMap, level + 1)
  else if c = '\x7d' then some (.closeMap, level - 1)
  else if c = ',' then some (.comma, level)
  else if c = '?' && level ≠ 0 then some (.question, level)
  else if c = ':' && level ≠ 0 then some (.colon distance, level)
  else none

/-- The tokens of a text.  So many brackets and braces are open, the last token lies at the
distance unless a line has ended since, and the text may be at the beginning of a line. -/
def tokens (level : Nat) (distance : Option Nat) (atStart : Bool) (t : Text) :
    Option (List Token) :=
  match t with
  | [] => some []
  | c :: r =>
      if c = ' ' then tokens level (distance.map (· + 1)) false r
      else if isBreak c then tokens level none true r
      else if c = '#' then tokens level none false (r.dropWhile fun c => !isBreak c)
      else
        match (if atStart then markToken? t else none) with
        | some token => do
            return token :: (← tokens level (some 0) false (r.drop 2))
        | none =>
            match charToken? level distance c with
            | some (token, level) => do return token :: (← tokens level (some 0) false r)
            | none => do
                let s ← scalar? (level ≠ 0) t
                let behind := (t.take s.width).getLast?.any isBreak
                return .scalar s :: (← tokens level (some 0) behind (r.drop (s.width - 1)))
termination_by t.length
decreasing_by
  all_goals simp only [List.length_cons, List.length_drop]
  all_goals try omega
  have := (List.dropWhile_suffix (p := fun c => !isBreak c) (l := r)).length_le
  omega

end Flow

end InverseTemplate
