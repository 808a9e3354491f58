/-
# Reading JSON

A JSON text is cut into tokens first; a value is then put together token by token.  What has
been opened and not yet closed is a stack of frames, and what may come next is a mode, so
reading is one pass over the tokens with no look-ahead and no limit on the depth.

A numeral with a fraction or an exponent is a double, any other is an integer of whatever size.
The doubles without a numeral go by the words that they are written with.  A key that is
repeated keeps its first place and its last value.
-/
import InverseTemplate.Number.Numeral

namespace InverseTemplate

namespace Json

/-! ## Strings -/

/-- The number that four hexadecimal digits stand for. -/
def hexUnit? (a b c d : Char) : Option Nat := do
  let high := (← digitValue? a) * 16 + (← digitValue? b)
  let low := (← digitValue? c) * 16 + (← digitValue? d)
  return high * 256 + low

/-- The character that a single escape letter stands for. -/
def escaped? (c : Char) : Option Char :=
  if c = '"' ∨ c = '\\' ∨ c = '/' then some c
  else if c = 'n' then some '\n'
  else if c = 't' then some '\t'
  else if c = 'r' then some '\r'
  else if c = 'b' then some (Char.ofNat 8)
  else if c = 'f' then some (Char.ofNat 12)
  else none

/-- Does the number stand for the first half of a pair that makes one character? -/
def isHighUnit (n : Nat) : Bool := 0xD800 ≤ n && n ≤ 0xDBFF

/-- Does the number stand for the second half of such a pair? -/
def isLowUnit (n : Nat) : Bool := 0xDC00 ≤ n && n ≤ 0xDFFF

/-- The content of a string whose opening quote has been read, and what follows the closing
one.  `high` is the first half of a pair that still lacks its second half. -/
def stringBody (high : Option Nat) : Text → Option (Text × Text)
  | '\\' :: 'u' :: a :: b :: c :: d :: r => do
      let unit ← hexUnit? a b c d
      match high with
      | some h =>
          if isLowUnit unit then
            let (body, rest) ← stringBody none r
            return (Char.ofNat (0x10000 + (h - 0xD800) * 0x400 + (unit - 0xDC00)) :: body, rest)
          else none
      | none =>
          if isHighUnit unit then stringBody (some unit) r
          else if isLowUnit unit then none
          else
            let (body, rest) ← stringBody none r
            return (Char.ofNat unit :: body, rest)
  | '\\' :: e :: r => do
      let c ← escaped? e
      if high.isSome then none
      else
        let (body, rest) ← stringBody none r
        return (c :: body, rest)
  | c :: r =>
      if high.isSome then none
      else if c = '"' then some ([], r)
      else if c.toNat < 0x20 ∨ c = '\\' then none
      else do
        let (body, rest) ← stringBody none r
        return (c :: body, rest)
  | [] => none

/-! ## Numbers -/

/-- The power of ten at the end of a numeral, or nothing at all. -/
def power? : Text → Option (Option Int)
  | [] => some none
  | e :: r =>
      if e = 'e' ∨ e = 'E' then
        let (negative, digits) : Bool × Text := match r with
          | '+' :: ds => (false, ds)
          | '-' :: ds => (true, ds)
          | ds => (false, ds)
        let power : Int := natOfDigits digits
        if digits ≠ [] ∧ digits.all Text.isAsciiDigit then
          some (some (if negative then -power else power))
        else none
      else none

/-- Takes a numeral apart: a sign, digits without a leading zero, a fraction, an exponent. -/
def numeral? (t : Text) : Option Numeral := do
  let (negative, unsigned) : Bool × Text := match t with
    | '-' :: r => (true, r)
    | r => (false, r)
  let whole := unsigned.takeWhile Text.isAsciiDigit
  let r := unsigned.dropWhile Text.isAsciiDigit
  if whole = [] ∨ (whole.head? = some '0' ∧ whole ≠ ['0']) then none
  else
    match r with
    | '.' :: r =>
        let places := r.takeWhile Text.isAsciiDigit
        if places = [] then none
        else return ⟨negative, whole, some places, ← power? (r.dropWhile Text.isAsciiDigit)⟩
    | r => return ⟨negative, whole, none, ← power? r⟩

/-! ## Tokens -/

/-- The tokens of JSON. -/
inductive Token where
  | openList
  | closeList
  | openMap
  | closeMap
  | comma
  | colon
  | string (t : Text)
  | scalar (v : Value)

/-- A blank between tokens. -/
def isSpace (c : Char) : Bool := c = ' ' || c = '\t' || c = '\n' || c = '\r'

/-- A character of a word or a numeral. -/
def isBare (c : Char) : Bool := c.isAlphanum || c = '-' || c = '+' || c = '.'

/-- A word or a numeral as a token. -/
def bareToken? (t : Text) : Option Token :=
  if t = text "null" then some (.scalar .null)
  else if t = text "true" then some (.scalar (.bool true))
  else if t = text "false" then some (.scalar (.bool false))
  else if t = text "NaN" then some (.scalar (.float (0.0 / 0.0)))
  else if t = text "Infinity" then some (.scalar (.float (1.0 / 0.0)))
  else if t = text "-Infinity" then some (.scalar (.float (-1.0 / 0.0)))
  else (numeral? t).map fun n => .scalar n.value

/-- The token of a mark. -/
def markToken? (c : Char) : Option Token :=
  if c = '[' then some .openList
  else if c = ']' then some .closeList
  else if c = '\x7b' then some .openMap
  else if c = '\x7d' then some .closeMap
  else if c = ',' then some .comma
  else if c = ':' then some .colon
  else none

theorem length_stringBody {high : Option Nat} {t body rest : Text}
    (h : stringBody high t = some (body, rest)) : rest.length < t.length := by
  fun_induction stringBody high t generalizing body rest <;>
    simp_all [Option.bind_eq_some_iff] <;> grind [Option.bind_eq_some_iff]

/-- The tokens of a text, if it is made of tokens and blanks only. -/
def tokens (t : Text) : Option (List Token) :=
  match t with
  | [] => some []
  | c :: r =>
      if isSpace c then tokens r
      else if c = '"' then
        match h : stringBody none r with
        | some (body, rest) =>
            have := length_stringBody h
            (tokens rest).map (Token.string body :: ·)
        | none => none
      else
        match markToken? c with
        | some token => (tokens r).map (token :: ·)
        | none =>
            if isBare c then do
              let token ← bareToken? (c :: r.takeWhile isBare)
              let more ← tokens (r.dropWhile isBare)
              return token :: more
            else none
termination_by t.length
decreasing_by
  all_goals simp only [List.length_cons]
  · omega
  · omega
  · omega
  · have := (List.dropWhile_suffix (p := isBare) (l := r)).length_le
    omega

/-! ## From tokens to a value -/

/-- Something opened that waits for the value in work. -/
inductive Frame where
  /-- An array with the items before that value, the last one first. -/
  | item (before : List Value)
  /-- A map with the entries before that value, and the value's key. -/
  | entry (before : Entries Value) (key : Text)

/-- What may come next. -/
inductive Mode where
  | value
  /-- The first item of an array, or its end. -/
  | itemOrEnd
  /-- The first key of a map, or its end. -/
  | keyOrEnd
  /-- Another key of a map with these entries. -/
  | key (before : Entries Value)
  /-- The colon after a key. -/
  | colon (before : Entries Value) (key : Text)
  /-- Whatever may follow a complete value. -/
  | after (v : Value)

/-- A value begins, in a place where one may. -/
def startValue (frames : List Frame) : Token → Option (List Frame × Mode)
  | .string t => some (frames, .after (.text t))
  | .scalar v => some (frames, .after v)
  | .openList => some (frames, .itemOrEnd)
  | .openMap => some (frames, .keyOrEnd)
  | _ => none

/-- A value is complete and a token follows it. -/
def endValue (v : Value) : List Frame → Token → Option (List Frame × Mode)
  | .item before :: frames, .comma => some (.item (v :: before) :: frames, .value)
  | .item before :: frames, .closeList =>
      some (frames, .after (.list (v :: before).reverse))
  | .entry before key :: frames, .comma => some (frames, .key (Entries.set before key v))
  | .entry before key :: frames, .closeMap =>
      some (frames, .after (.map (Entries.set before key v)))
  | _, _ => none

/-- One token. -/
def step : List Frame × Mode → Token → Option (List Frame × Mode)
  | (frames, .value), token => startValue frames token
  | (frames, .itemOrEnd), token => match token with
      | .closeList => some (frames, .after (.list []))
      | _ => startValue (.item [] :: frames) token
  | (frames, .keyOrEnd), token => match token with
      | .closeMap => some (frames, .after (.map []))
      | .string key => some (frames, .colon [] key)
      | _ => none
  | (frames, .key before), token => match token with
      | .string key => some (frames, .colon before key)
      | _ => none
  | (frames, .colon before key), token => match token with
      | .colon => some (.entry before key :: frames, .value)
      | _ => none
  | (frames, .after v), token => endValue v frames token

/-- The value that a list of tokens spells. -/
def ofTokens? (tokens : List Token) : Option Value :=
  match tokens.foldlM step ([], Mode.value) with
  | some ([], .after v) => some v
  | _ => none

/-- Reads a JSON text. -/
def read? (t : Text) : Option Value := (tokens t).bind ofTokens?

end Json

end InverseTemplate
