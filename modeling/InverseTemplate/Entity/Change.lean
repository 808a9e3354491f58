/-
# Changes between two lists of entities

Two lists of entities are compared by their ids.  Of several entities with one id the last one
counts, in the place of the first.  An entity that both lists have was updated if the two differ
in anything but their id and type.
-/
import InverseTemplate.Entity.Listing
import InverseTemplate.Failure
import InverseTemplate.Value.Equality
import InverseTemplate.Value.Key

namespace InverseTemplate

namespace Entity

/-- An entity under its id. -/
structure Keyed where
  id : Value
  fields : Entries Value

/-- A change between two lists of entities. -/
inductive Change where
  | added (entity : Keyed)
  | removed (entity : Keyed)
  | updated (before : Entries Value) (after : Keyed)

namespace Keyed

/-- An entity under its id. -/
def ofValue : Value → Except Failure Keyed
  | .map fields =>
      match Entries.get? fields idKey with
      | some id => if id.isKey then .ok ⟨id, fields⟩ else .error .wrongKind
      | none => .error .missingKey
  | _ => .error .wrongKind

/-- The entity with an id. -/
def find? (id : Value) (entities : List Keyed) : Option Keyed :=
  entities.find? fun entity => entity.id.sameKey id

/-- The entities with one more.  One with the same id gives way to it and lends it its id. -/
def insert (entities : List Keyed) (entity : Keyed) : List Keyed :=
  match entities with
  | [] => [entity]
  | first :: rest =>
      if first.id.sameKey entity.id then ⟨first.id, entity.fields⟩ :: rest
      else first :: insert rest entity

/-- The entities of a list, each id once. -/
def ofValues (values : List Value) : Except Failure (List Keyed) := do
  return (← values.mapM ofValue).foldl insert []

/-- The type of an entity, which is empty where there is none. -/
def type (entity : Keyed) : Value := (Entries.get? entity.fields typeKey).getD (.text [])

/-- The fields apart from id and type. -/
def payload (fields : Entries Value) : Value :=
  .map (Entries.filterKeys (fun key => key ≠ idKey && key ≠ typeKey) fields)

end Keyed

/-- The changes between two lists of entities with ids: first what was added, then what was
removed, then what was updated. -/
def changesBetween (before after : List Keyed) : List Change :=
  let added := (after.filter fun entity => (Keyed.find? entity.id before).isNone).map .added
  let removed := (before.filter fun entity => (Keyed.find? entity.id after).isNone).map .removed
  let updated := after.filterMap fun entity =>
    match Keyed.find? entity.id before with
    | some old =>
        if (Keyed.payload old.fields).equal (Keyed.payload entity.fields) then none
        else some (.updated old.fields entity)
    | none => none
  added ++ removed ++ updated

/-- The changes between two lists of entities. -/
def changes (before after : List Value) : Except Failure (List Change) := do
  return changesBetween (← Keyed.ofValues before) (← Keyed.ofValues after)

end Entity

end InverseTemplate
