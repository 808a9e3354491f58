/-
# Entities and Markdown lists of them

Two fields of an entity are not about its content: the id tells it apart from the others, and
the type says what sort of entity it is.

Every line of a list that begins with a dash is an entity.  A link names it by its text, and
its id is the last part of the link's target; any other text is name and id in one.  Other
lines are passed over.
-/
import InverseTemplate.Text.Blank
import InverseTemplate.Value.Basic

namespace InverseTemplate

namespace Entity

/-- The key of an entity's id. -/
def idKey : Text := text "$id"

/-- The key of an entity's type. -/
def typeKey : Text := text "$type"

/-- A named entity. -/
structure Listed where
  id : Text
  name : Text
deriving DecidableEq

namespace Listed

/-- The part of a line behind its dash and the blanks there. -/
def behindDash? : Text → Option Text
  | '-' :: r => some (Text.stripLeft r)
  | _ => none

/-- The characters up to the given one, which has to follow, and what is behind it; there has to
be at least one. -/
def upTo? (closing : Char) (t : Text) : Option (Text × Text) :=
  let inner := t.takeWhile fun c => c ≠ closing
  match t.drop inner.length with
  | _ :: rest => if inner = [] then none else some (inner, rest)
  | [] => none

/-- The text and the target of the link that a text begins with. -/
def link? : Text → Option (Text × Text)
  | '[' :: r =>
      match upTo? ']' r with
      | some (name, '(' :: s) => (upTo? ')' s).map fun (target, _) => (name, target)
      | _ => none
  | _ => none

/-- The id that a link's target stands for: the part behind its last slash, or the whole target
if there is nothing behind it. -/
def idOfTarget (target : Text) : Text :=
  let last := ((List.splitOn '/' (Text.stripRight target)).getLast?).getD []
  if last = [] then target else last

/-- The entity of a line without blanks around it. -/
def ofLine? (line : Text) : Option Listed :=
  match behindDash? line with
  | none => none
  | some shown =>
      match link? shown with
      | some (name, target) => some ⟨idOfTarget target, name⟩
      | none => if shown = [] then none else some ⟨shown, shown⟩

/-- The entities of a list. -/
def ofText (content : Text) : List Listed :=
  (List.splitOn '\n' content).filterMap fun line => ofLine? (Text.strip line)

/-- The entity as an item of the given type. -/
def item (type : Text) (entity : Listed) : Value :=
  .map [(idKey, .text entity.id), (text "name", .text entity.name), (typeKey, .text type)]

end Listed

end Entity

end InverseTemplate
