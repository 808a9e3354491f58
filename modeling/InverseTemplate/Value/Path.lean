/-
# Dotted paths

A path names a place in nested maps by the keys on the way to it, joined with dots.  Splitting
a path at its dots gives the keys; a key that holds a dot itself therefore cannot be named, and
the empty path names the empty key.

A list of selectors, which are paths too, stands for a part of a record: what a selector names
and everything below it is covered; to reach it one has to walk through everything above it,
which is selected as well.
-/
import InverseTemplate.Value.Basic

namespace InverseTemplate

namespace Path

/-- The keys on the way to a place. -/
def split (path : Text) : List Text := List.splitOn '.' path

/-- The path of a key below the place `above`; at the top there is nothing to join to. -/
def join (above key : Text) : Text := if above = [] then key else above ++ '.' :: key

/-- Does `path` name a place strictly below the one that `above` names? -/
def isBelow (path above : Text) : Bool := (above ++ ['.']).isPrefixOf path

/-- Is the path named by a selector, or below one, or above one? -/
def selected (path : Text) (selectors : List Text) : Bool :=
  selectors.any fun selector =>
    path = selector || isBelow path selector || isBelow selector path

/-- Is the path named by a selector or below one?  Without selectors every path is. -/
def covered (path : Text) : Option (List Text) → Bool
  | none => true
  | some selectors => selectors.any fun selector => path = selector || isBelow path selector

/-- Is there anything to do at the path or below it? -/
def walked (path : Text) : Option (List Text) → Bool
  | none => true
  | some selectors => selected path selectors

end Path

/-! ## Writing at a path -/

namespace Entries

/-- Writes a value at the end of a way of keys.  Whatever stands on the way and is not a map
gives way to an empty one. -/
def setPath : Entries Value → List Text → Value → Entries Value
  | m, [], _ => m
  | m, [key], value => set m key value
  | m, key :: next :: more, value =>
      let below := match get? m key with
        | some (.map entries) => entries
        | _ => []
      set m key (.map (setPath below (next :: more) value))

end Entries

namespace Value

/-- The value at the end of a way of keys. -/
def getPath? : Value → List Text → Option Value
  | v, [] => some v
  | .map entries, key :: more =>
      match Entries.get? entries key with
      | some v => getPath? v more
      | none => none
  | _, _ :: _ => none

/-! ## Listing the leaves -/

mutual

/-- The leaves of a value that stands at the given path: a map with entries is listed entry by
entry, everything else, the empty map included, is a leaf. -/
def leavesAt (path : Text) : Value → List (Text × Value)
  | .map (entry :: entries) => leavesBelow path (entry :: entries)
  | .map [] => [(path, .map [])]
  | .null => [(path, .null)]
  | .bool b => [(path, .bool b)]
  | .int n => [(path, .int n)]
  | .float x => [(path, .float x)]
  | .text t => [(path, .text t)]
  | .list items => [(path, .list items)]
  | .tuple items => [(path, .tuple items)]
  | .other tag => [(path, .other tag)]

/-- The leaves of the entries of a map that stands at the given path, in their order. -/
def leavesBelow (path : Text) : List (Text × Value) → List (Text × Value)
  | [] => []
  | (key, v) :: rest => leavesAt (Path.join path key) v ++ leavesBelow path rest

end

end Value

end InverseTemplate
