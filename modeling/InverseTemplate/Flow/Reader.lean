/-
# Reading the flow notation

A value in flow notation is a scalar, a list in brackets or a map in braces.  It contains JSON,
and allows more: a comma before the closing mark, keys and texts without quotes, a key without a
value, and inside a list a single entry, which is a map of its own.  A question mark announces a
key; without one a key is a scalar on one line with its colon, and not too far from it.

Tokens are put together as in JSON: what has been opened and not yet closed is a stack of frames,
and what may come next is a mode.  A key that is repeated keeps its first place and its last
value.  Lists and maps are no keys.
-/
import InverseTemplate.CommandLine.Source
import InverseTemplate.Flow.Token
import InverseTemplate.Value.Key

namespace InverseTemplate

namespace Flow

/-- The distance from the beginning of a key to its colon that is not exceeded. -/
def maxReach : Nat := 1024

/-- Is the scalar the key of a colon at the distance? -/
def Scalar.leads (s : Scalar) (distance : Option Nat) : Bool :=
  s.oneLine && distance.any fun n => s.width + n ≤ maxReach

/-- Something that has been opened, with what is in it. -/
inductive Open where
  /-- A list, its last item first. -/
  | list (items : List Value)
  | map (entries : Entries Value)

namespace Open

/-- The value, once it is closed. -/
def value : Open → Value
  | .list items => .list items.reverse
  | .map entries => .map entries

/-- Does the token close it? -/
def isClosedBy : Open → Token → Bool
  | .list _, .closeList => true
  | .map _, .closeMap => true
  | _, _ => false

/-- One more entry, which makes a map of its own inside a list. -/
def addEntry (o : Open) (key v : Value) : Open :=
  match o with
  | .list items => .list (.map [(key.keyName, v)] :: items)
  | .map entries => .map (Entries.set entries key.keyName v)

/-- One more scalar: an item, or a key without a value. -/
def addScalar (o : Open) (v : Value) : Open :=
  match o with
  | .list items => .list (v :: items)
  | .map entries => .map (Entries.set entries v.keyName .null)

end Open

/-- Something open in which another thing has been opened. -/
inductive Frame where
  /-- A list, of which the other thing is an item. -/
  | item (items : List Value)
  /-- Anything, in which the other thing belongs to a key. -/
  | entry (o : Open) (key : Value)

/-- What is open again when the value is complete. -/
def Frame.close (frame : Frame) (v : Value) : Open :=
  match frame with
  | .item items => .list (v :: items)
  | .entry o key => o.addEntry key v

/-- What may come next. -/
inductive Mode where
  /-- The value. -/
  | start
  /-- Something new in what is open. -/
  | new (o : Open)
  /-- A colon, if the scalar is a key, or what follows an item. -/
  | scalar (o : Open) (s : Scalar)
  /-- The key that a question mark announced. -/
  | announced (o : Open)
  /-- A colon behind such a key. -/
  | key (o : Open) (key : Value)
  /-- The value of a key. -/
  | value (o : Open) (key : Value)
  /-- A comma, or the end of what is open. -/
  | separator (o : Open)
  /-- Nothing. -/
  | finished (v : Value)

/-- A complete value in its place. -/
def completed (v : Value) : List Frame → List Frame × Mode
  | [] => ([], .finished v)
  | frame :: frames => (frames, .separator (frame.close v))

/-- A comma, or the end of what is open. -/
def separated (frames : List Frame) (o : Open) (token : Token) : Option (List Frame × Mode) :=
  if o.isClosedBy token then some (completed o.value frames)
  else
    match token with
    | .comma => some (frames, .new o)
    | _ => none

/-- One token. -/
def step : List Frame × Mode → Token → Option (List Frame × Mode)
  | (frames, .start), token => match token with
      | .scalar s => some (completed s.value frames)
      | .openList => some (frames, .new (.list []))
      | .openMap => some (frames, .new (.map []))
      | _ => none
  | (frames, .new o), token =>
      if o.isClosedBy token then some (completed o.value frames)
      else
        match token, o with
        | .scalar s, o => some (frames, .scalar o s)
        | .question, o => some (frames, .announced o)
        | .openList, .list items => some (.item items :: frames, .new (.list []))
        | .openMap, .list items => some (.item items :: frames, .new (.map []))
        | _, _ => none
  | (frames, .scalar o s), token => match token with
      | .colon distance =>
          if s.leads distance then some (frames, .value o s.value) else none
      | _ => separated frames (o.addScalar s.value) token
  | (frames, .announced o), token => match token with
      | .scalar s => some (frames, .key o s.value)
      | .colon _ => some (frames, .value o .null)
      | _ => separated frames (o.addEntry .null .null) token
  | (frames, .key o key), token => match token with
      | .colon _ => some (frames, .value o key)
      | _ => separated frames (o.addEntry key .null) token
  | (frames, .value o key), token => match token with
      | .scalar s => some (frames, .separator (o.addEntry key s.value))
      | .openList => some (.entry o key :: frames, .new (.list []))
      | .openMap => some (.entry o key :: frames, .new (.map []))
      | _ => separated frames (o.addEntry key .null) token
  | (frames, .separator o), token => separated frames o token
  | (_, .finished _), _ => none

/-- The value that tokens spell. -/
def ofTokens? (tokens : List Token) : Option Value :=
  match tokens.foldlM step ([], Mode.start) with
  | some ([], .finished v) => some v
  | _ => none

/-! ## Documents -/

/-- Does the token end a document? -/
def Token.isDocumentEnd : Token → Bool
  | .documentEnd => true
  | _ => false

/-- Is the token spelled with halves of characters? -/
def Token.isHalved : Token → Bool
  | .scalar s => s.halved
  | _ => false

/-- A value as it is read. -/
structure Document where
  value : Value
  /-- Can all texts in it be written as bytes? -/
  writable : Bool

/-- The value of a document: one that is announced may be empty, and so may the whole text. -/
def content? (tokens : List Token) : Option Value :=
  let (announced, rest) : Bool × List Token := match tokens with
    | .documentStart :: rest => (true, rest)
    | rest => (false, rest)
  let body := rest.takeWhile fun token => !token.isDocumentEnd
  let tail := rest.dropWhile fun token => !token.isDocumentEnd
  if !tail.all Token.isDocumentEnd then none
  else if body.isEmpty then if announced || tail.isEmpty then some .null else none
  else ofTokens? body

/-- The mark of the byte order. -/
def byteOrderMark : Char := Char.ofNat 0xFEFF

/-- Can a document hold the character? -/
def isDocumentChar (c : Char) : Bool :=
  let n := c.toNat
  n = 0x09 || n = 0x0A || (0x20 ≤ n && n ≤ 0x7E) || n = 0x85 || (0xA0 ≤ n && n ≤ 0xFFFD) ||
    0x10000 ≤ n

/-- Reads the one document of a text.  A mark of the byte order may stand in front of it. -/
def read? (t : Text) : Option Document := do
  let content := match t with
    | c :: r => if c = byteOrderMark then r else c :: r
    | [] => []
  if content.all isDocumentChar then
    let tokens ← tokens 0 (some 0) true content
    return ⟨← content? tokens, !tokens.any Token.isHalved⟩
  else none

/-- Loads a record in the flow notation, and no other. -/
def load (bytes : ByteArray) : CommandLine.Loaded :=
  match CommandLine.decoded? bytes with
  | none => .failed .notText
  | some t =>
      match read? t with
      | none => .malformed (text "the record is malformed")
      | some ⟨.null, _⟩ => .empty
      | some ⟨.map entries, writable⟩ => .record ⟨entries, writable⟩
      | some _ => .other

end Flow

end InverseTemplate
