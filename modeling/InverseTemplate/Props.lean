/-
# What an extractor yields

An extractor should yield a map of props.  It is caller code, though, and may yield anything.
Where all props are wanted, a map is given by its entries or else spelled out: a value whose
parts are pairs gives each pair's first part the second one for value.  Where only the bound
props are wanted, a value that is no map is searched for their names, and what else is in it has
to be such as could be listed; nothing comes of it either way, but the search may fail.
-/
import InverseTemplate.Failure
import InverseTemplate.Template.Slot
import InverseTemplate.Value.Key

namespace InverseTemplate

namespace Props

/-! ## Maps that are spelled out -/

/-- The props with those that the pairs spell, the first of which has the index. -/
def withPairs (index : Nat) (props : Entries Value) : List Value → Except Failure (Entries Value)
  | [] => .ok props
  | pair :: rest =>
      match pair.parts? with
      | none => .error .wrongKind
      | some [key, v] =>
          if key.isKey then withPairs (index + 1) (Entries.set props key.keyName v) rest
          else .error .wrongKind
      | some parts => .error (.notAPair index parts.length)

/-- All props of a yielded value. -/
def all (yielded : Value) : Except Failure (Entries Value) :=
  match yielded with
  | .map props => .ok props
  | v =>
      match v.parts? with
      | some pairs => withPairs 0 [] pairs
      | none => .error .wrongKind

theorem withPairs_spelled (index : Nat) (props : Entries Value) (writes : List (Text × Value)) :
    withPairs index props (writes.map fun write => .list [.text write.1, write.2]) =
      .ok (writes.foldl (fun m write => Entries.set m write.1 write.2) props) := by
  induction writes generalizing index props with
  | nil => rfl
  | cons write rest ih => exact ih (index + 1) (Entries.set props write.1 write.2)

/-! ## Values without props -/

/-- Is the value this text? -/
def isText (t : Text) : Value → Bool
  | .text s => s = t
  | _ => false

/-- Looks through a value that is no map for the props that are bound to paths.  To come across
one is a failure, because there is no value to take, and so are leftovers that are no keys or
have no order. -/
def search (yielded : Value) (bound : List (Text × Text)) : Except Failure Unit :=
  match yielded with
  | .text t =>
      if bound.any fun (prop, path) => Text.includes prop t && Expression.isPath path then
        .error .wrongKind
      else .ok ()
  | v =>
      match v.items? with
      | none => .error .wrongKind
      | some items =>
          let found := bound.any fun (prop, path) =>
            items.any (isText prop) && Expression.isPath path
          let leftovers := items.filter fun item => !bound.any fun (prop, _) => isText prop item
          if !found && items.all Value.isKey && Value.areOrderable leftovers then .ok ()
          else .error .wrongKind

end Props

end InverseTemplate
