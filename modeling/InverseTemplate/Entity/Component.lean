/-
# Entity components

A component that shows a list of entities renders them as a table or a list and reads either of
them back.  Its props are the items, the columns, and filters: under any other key, a value that
the shown items have to have in the field of that name.

The name of the component is the type of its entities, in the plural if one likes.
-/
import InverseTemplate.Component
import InverseTemplate.Entity.Listing
import InverseTemplate.Entity.Render
import InverseTemplate.Template.Split

namespace InverseTemplate

namespace Entity

/-- The prop that holds the items. -/
def itemsKey : Text := text "items"

/-- The prop that holds the columns. -/
def columnsKey : Text := text "columns"

/-! ## Rendering -/

/-- The items that a prop spreads out to; a text has its characters for items, and a map its
keys. -/
def spread (v : Value) : Except Failure (List Value) :=
  if !v.isTruthy then .ok []
  else
    match v.parts? with
    | some parts => .ok parts
    | none => .error .wrongKind

/-- Does an item hold a value in a field?  Something that is no map may mention the field's name,
but it has no field to compare. -/
def holdsField (item : Value) (key : Text) (v : Value) : Except Failure Bool :=
  match item with
  | .map entries => .ok (match Entries.get? entries key with
      | some w => w.equal v
      | none => false)
  | .text t => if Text.includes key t then .error .wrongKind else .ok false
  | _ => match item.items? with
      | some items =>
          if items.any fun w => w.equal (.text key) then .error .wrongKind else .ok false
      | none => .error .wrongKind

/-- Does an item hold all the values that the filters ask for? -/
def passes (item : Value) : List (Text × Value) → Except Failure Bool
  | [] => .ok true
  | (key, v) :: rest => do
      if ← holdsField item key v then passes item rest else return false

/-- The items that pass the filters. -/
def filtered (filters : Entries Value) : List Value → Except Failure (List Value)
  | [] => .ok []
  | item :: rest => do
      let kept ← passes item filters
      let more ← filtered filters rest
      return if kept then item :: more else more

/-- Renders the props of an entity component. -/
def render (options : RenderOptions) (props : Value) : Except Failure Text :=
  match props with
  | .map entries => do
      let filters := Entries.filterKeys (fun key => key ≠ itemsKey && key ≠ columnsKey) entries
      let all ← spread ((Entries.get? entries itemsKey).getD .null)
      let items ← if filters = [] then .ok all else filtered filters all
      match ← Format.read options.format with
      | .list => renderList options items
      | .table => renderTable options ((Entries.get? entries columnsKey).getD .null) items
  | _ => .error .notAMap

/-! ## Reading -/

/-- The id of a row of a table: its first id field that is not empty, or else its index. -/
def rowId (row : Entries Text) (index : Nat) : Text :=
  let named := [text "id", idKey, text "slug"].findSome? fun key =>
    match Entries.get? row key with
    | some (c :: r) => some (c :: r)
    | _ => none
  named.getD (Text.ofNat index)

/-- The item that a row of a table stands for. -/
def rowItem (type : Text) (row : Entries Text) (index : Nat) : Value :=
  let own := Entries.filterKeys (fun key => key ≠ text "id" && key ≠ idKey) row
  .map (own.foldl (fun item cell => Entries.set item cell.1 (.text cell.2))
    [(idKey, .text (rowId row index)), (typeKey, .text type)])

/-- The props with the given items and columns. -/
def props (items : List Value) (columns : List Text) : Value :=
  .map [(itemsKey, .list items), (columnsKey, .list (columns.map .text))]

/-- The props that a content was rendered from. -/
def read (type content : Text) : Value :=
  let trimmed := Text.strip content
  if trimmed = noItems ∨ trimmed = noColumns then props [] []
  else if trimmed.head? = some '-' then
    props ((Listed.ofText trimmed).map (Listed.item type)) [text "name"]
  else
    let table := Table.ofText trimmed
    props (table.rows.zipIdx.map fun (row, index) => rowItem type row index) table.headers

/-- The component for entities of a type. -/
def component (type : Text) (options : RenderOptions) : Component :=
  { render := render options
    extract := fun content => .ok (some (read type content)) }

/-! ## Types and templates -/

/-- A type's name without its plural ending: `ies` becomes `y`; `es` and `s` are dropped, unless
what they end is `ses` or `ss`. -/
def singular (name : Text) : Text :=
  if (text "ies").isSuffixOf name then name.take (name.length - 3) ++ ['y']
  else if (text "es").isSuffixOf name && !(text "ses").isSuffixOf name then
    name.take (name.length - 2)
  else if ['s'].isSuffixOf name && !(text "ss").isSuffixOf name then name.take (name.length - 1)
  else name

/-- The names of the components of a template in the order of their first use. -/
def componentNames (template : Text) : List Text :=
  ((Template.ofText template).slots.filterMap Slot.name?).eraseDups

/-- An entity extractor for every component of a template. -/
def extractors (template : Text) (options : RenderOptions) : Extractors :=
  (componentNames template).map fun name =>
    (name, (component (singular name) options).extractor)

end Entity

end InverseTemplate
