/-
# Rendering lists of entities

Entities are shown as a table or as a list.  A table has the columns asked for, or else the
first few fields of the first entity; a list shows the most telling field of each entity, which
the first entity chooses for all, and may link it.

Items are caller data of any kind.  Rendering reports the first item that it can do nothing
with: what is not a map has no fields, and what is no array has no columns.
-/
import InverseTemplate.Entity.Listing
import InverseTemplate.Entity.Table
import InverseTemplate.Failure
import InverseTemplate.Value.Equality
import InverseTemplate.Value.Json
import InverseTemplate.Value.Key
import InverseTemplate.Value.Printed

namespace InverseTemplate

namespace Entity

/-! ## Options -/

/-- How entities are shown. -/
inductive Format where
  | table
  | list
deriving DecidableEq

namespace Format

/-- The word for a format. -/
def word : Format → Text
  | .table => text "table"
  | .list => text "list"

/-- All formats. -/
def all : List Format := [.table, .list]

/-- Reads a format from an option. -/
def read (option : Value) : Except Failure Format :=
  match all.find? fun format => option.equal (.text format.word) with
  | some format => .ok format
  | none => .error (.unknownWord option.literal .entityFormat)

end Format

/-- The options of rendering. -/
structure RenderOptions where
  /-- The word for the format; it is looked at only when something is rendered. -/
  format : Value := .text Format.table.word
  /-- What a list links to, with a mark for the id; nothing, if it is empty. -/
  linkPattern : Text := []
  /-- At most so many entities are shown; if negative, all but so many.  It is looked at only
  when there are entities to show. -/
  limit : Value := .null

/-- At most so many items; if negative, all but so many. -/
def atMost {α : Type} (limit : Int) (items : List α) : List α :=
  match limit with
  | .ofNat n => items.take n
  | .negSucc n => items.take (items.length - (n + 1))

/-- The items that the limit lets through. -/
def RenderOptions.limited (options : RenderOptions) {α : Type} (items : List α) :
    Except Failure (List α) :=
  match options.limit with
  | .null => .ok items
  | .int n => .ok (atMost n items)
  | .bool b => .ok (atMost (if b then 1 else 0) items)
  | _ => .error .wrongKind

/-- What stands for a list without items. -/
def noItems : Text := text "_No items_"

/-- What stands for a table without columns. -/
def noColumns : Text := text "_No columns_"

/-! ## Fields -/

/-- The fields that are never columns by themselves. -/
def metaFields : List Text :=
  [idKey, typeKey, text "$context", text "createdAt", text "updatedAt", text "_content"]

/-- How many columns are chosen at most. -/
def maxColumns : Nat := 5

/-- The fields that can name an entity, the most telling one first. -/
def displayFields : List Text :=
  [text "name", text "title", text "label", text "displayName", text "slug", idKey]

/-- Does the key begin with a dollar sign? -/
def isReserved (key : Text) : Bool := key.head? = some '$'

/-- Can the key be a column by itself? -/
def isColumn (key : Text) : Bool := !metaFields.contains key && !isReserved key

/-- A field of an entity. -/
def field? (item : Value) (key : Text) : Except Failure (Option Value) :=
  match item with
  | .map entries => .ok (Entries.get? entries key)
  | _ => .error .notAMap

/-- A key among the things that an item is made of. -/
def keyOf : Value → Except Failure Text
  | .text t => .ok t
  | v => if v.isKey then .error .notAMap else .error .wrongKind

/-- The keys of an item, which are what one comes across when going through it. -/
def keys (item : Value) : Except Failure (List Text) :=
  match item.parts? with
  | some parts => parts.mapM keyOf
  | none => .error .wrongKind

/-- The columns that an item suggests. -/
def columnsOf (item : Value) : Except Failure (List Text) := do
  return ((← keys item).filter isColumn).take maxColumns

/-- The field that names an entity with the given fields: the first telling one that is not
empty, else the first that is not reserved, else the id. -/
def displayKey (entries : Entries Value) : Text :=
  let telling (key : Text) := match Entries.get? entries key with
    | some v => v.isTruthy
    | none => false
  match displayFields.find? telling with
  | some key => key
  | none => ((Entries.keys entries).find? fun key => !isReserved key).getD idKey

/-- The field that names an entity. -/
def displayField (item : Value) : Except Failure Text :=
  match item with
  | .map entries => .ok (displayKey entries)
  | _ => .error .notAMap

/-! ## Cells and names -/

mutual

/-- Is there a value inside that has no notation? -/
def holdsOther : Value → Bool
  | .other _ => true
  | .list items => anyOther items
  | .tuple items => anyOther items
  | .map entries => anyOtherEntry entries
  | .null => false
  | .bool _ => false
  | .int _ => false
  | .float _ => false
  | .text _ => false

/-- Is there such a value inside one of the items? -/
def anyOther : List Value → Bool
  | [] => false
  | v :: rest => holdsOther v || anyOther rest

/-- Is there such a value inside one of the entries? -/
def anyOtherEntry : List (Text × Value) → Bool
  | [] => false
  | (_, v) :: rest => holdsOther v || anyOtherEntry rest

end

/-- The cell of a value: nothing for null, JSON for arrays, maps and booleans, and otherwise the
value as running text. -/
def cell (v : Value) : Except Failure Text :=
  match v with
  | .null => .ok []
  | .bool _ | .list _ | .tuple _ | .map _ =>
      if holdsOther v then .error .wrongKind else .ok (Json.compact v)
  | _ => .ok v.printed

/-- The cells of an entity. -/
def cellsOf (columns : List Text) (item : Value) : Except Failure (List Text) :=
  columns.mapM fun column => do cell ((← field? item column).getD .null)

/-- The columns that are asked for; what is empty asks for none. -/
def columnsAsked (option : Value) : Except Failure (List Text) :=
  if !option.isTruthy then .ok []
  else
    match option.parts? with
    | some parts => parts.mapM fun
        | .text t => .ok t
        | _ => .error .wrongKind
    | none => .error .wrongKind

/-! ## Tables and lists -/

/-- Entities as a table.  Null columns are chosen by the first entity. -/
def renderTable (options : RenderOptions) (columns : Value) (items : List Value) :
    Except Failure Text :=
  match items with
  | [] => .ok noItems
  | first :: _ => do
      let columns ← match columns with
        | .null => columnsOf first
        | asked => columnsAsked asked
      if columns = [] then return noColumns
      else return Table.written columns (← (← options.limited items).mapM (cellsOf columns))

/-- The mark in a link that stands for the id. -/
def idMark : Text := '\x7b' :: idKey ++ ['\x7d']

/-- The name that a list shows for an entity: its display field, or else its id. -/
def nameOf (displayKey : Text) (item : Value) : Except Failure Text := do
  let shown := (← field? item displayKey).getD .null
  let id := (← field? item idKey).getD .null
  return (if shown.isTruthy then shown else id).printed

/-- The line of an entity in a list. -/
def listLine (options : RenderOptions) (displayKey : Text) (item : Value) :
    Except Failure Text := do
  let name ← nameOf displayKey item
  if options.linkPattern = [] then return text "- " ++ name
  else
    let id := ((← field? item idKey).getD (.text [])).printed
    let link := Text.replaceAll idMark id options.linkPattern
    return text "- [" ++ name ++ text "](" ++ link ++ [')']

/-- Entities as a list. -/
def renderList (options : RenderOptions) (items : List Value) : Except Failure Text :=
  match items with
  | [] => .ok noItems
  | first :: _ => do
      let displayKey ← displayField first
      let lines ← (← options.limited items).mapM (listLine options displayKey)
      return List.intercalate ['\n'] lines

end Entity

end InverseTemplate
