/-
# Nested maps

Comparing and merging go down through maps and take everything else as a whole.  `mapInduction` is
induction along that descent: a value is a map whose values have been dealt with, or it is not a
map.

The plain form of a value is plain, and spelling a value plainly moves none of its leaves.
-/
import InverseTemplate.Proofs.Value.Equal
import InverseTemplate.Value.Path

namespace InverseTemplate

namespace Value

mutual

/-- Induction over a value by the maps in it.  Arrays are not looked into. -/
@[elab_as_elim]
theorem mapInduction {motive : Value → Prop} (whole : ∀ v, v.isMap = false → motive v)
    (map : ∀ entries : Entries Value, (∀ entry ∈ entries, motive entry.2) → motive (.map entries)) :
    ∀ v, motive v
  | .map entries => map entries (mapInduction_entries whole map entries)
  | .null => whole _ rfl
  | .bool _ => whole _ rfl
  | .int _ => whole _ rfl
  | .float _ => whole _ rfl
  | .text _ => whole _ rfl
  | .list _ => whole _ rfl
  | .tuple _ => whole _ rfl
  | .other _ => whole _ rfl

theorem mapInduction_entries {motive : Value → Prop} (whole : ∀ v, v.isMap = false → motive v)
    (map : ∀ entries : Entries Value, (∀ entry ∈ entries, motive entry.2) → motive (.map entries)) :
    ∀ entries : List (Text × Value), ∀ entry ∈ entries, motive entry.2
  | [] => List.forall_mem_nil _
  | (_, v) :: rest => List.forall_mem_cons.mpr
      ⟨mapInduction whole map v, mapInduction_entries whole map rest⟩

end

theorem exists_map_of_isMap {v : Value} (h : v.isMap = true) : ∃ entries, v = .map entries := by
  cases v with
  | map entries => exact ⟨entries, rfl⟩
  | _ => simp [isMap, entries?] at h

theorem equal_map_of_not_map {v : Value} (h : v.isMap = false) (entries : Entries Value) :
    equal v (.map entries) = false := by
  cases heq : equal v (.map entries) with
  | false => rfl
  | true =>
      have := isMap_eq_of_equal heq
      rw [h] at this
      exact absurd this (by simp [isMap, entries?])

theorem exists_map_or_forall (current : Option Value) :
    (∃ below, current = some (.map below)) ∨ ∀ c ∈ current, c.isMap = false := by
  cases current with
  | none => exact .inr fun c hc => absurd hc (by simp)
  | some v =>
      cases v with
      | map below => exact .inl ⟨below, rfl⟩
      | _ =>
          right
          intro c hc
          cases hc
          rfl

/-! ## The plain form -/

mutual

@[simp]
theorem plain_plain : ∀ v : Value, v.plain.plain = v.plain
  | .list items => congrArg Value.list (plainItems_plainItems items)
  | .tuple items => congrArg Value.list (plainItems_plainItems items)
  | .map entries => congrArg Value.map (plainEntries_plainEntries entries)
  | .null => rfl
  | .bool _ => rfl
  | .int _ => rfl
  | .float _ => rfl
  | .text _ => rfl
  | .other _ => rfl

@[simp]
theorem plainItems_plainItems : ∀ items : List Value,
    plainItems (plainItems items) = plainItems items
  | [] => rfl
  | v :: rest => by
      rw [plainItems, plainItems, plain_plain v, plainItems_plainItems rest]

@[simp]
theorem plainEntries_plainEntries : ∀ entries : List (Text × Value),
    plainEntries (plainEntries entries) = plainEntries entries
  | [] => rfl
  | (key, v) :: rest => by
      rw [plainEntries, plainEntries, plain_plain v, plainEntries_plainEntries rest]

end

theorem plainItems_append (xs ys : List Value) :
    plainItems (xs ++ ys) = plainItems xs ++ plainItems ys := by
  rw [plainItems_eq_map, plainItems_eq_map, plainItems_eq_map, List.map_append]

theorem forall_isMap_plain {current : Option Value} :
    (∀ c ∈ current.map plain, c.isMap = false) ↔ ∀ c ∈ current, c.isMap = false := by
  cases current with
  | none => simp
  | some v => simp [isMap_plain]

/-- The plain form has its leaves at the same paths, and they are the leaves spelled plainly. -/
theorem leavesAt_plain (v : Value) (path : Text) :
    v.plain.leavesAt path = (v.leavesAt path).map fun leaf => (leaf.1, leaf.2.plain) := by
  induction v using mapInduction generalizing path with
  | whole v hv =>
      cases v with
      | map entries => exact absurd hv (by simp [isMap, entries?])
      | _ => rfl
  | map entries ih =>
      have hbelow : leavesBelow path (plainEntries entries) =
          (leavesBelow path entries).map fun leaf => (leaf.1, leaf.2.plain) := by
        induction entries with
        | nil => rfl
        | cons entry rest ihrest =>
            obtain ⟨key, v⟩ := entry
            obtain ⟨hfirst, hrest⟩ := List.forall_mem_cons.mp ih
            simp only [plainEntries, leavesBelow, List.map_append]
            rw [hfirst, ihrest hrest]
      cases entries with
      | nil => rfl
      | cons entry rest => exact hbelow

theorem map_fst_leavesAt_plain (v : Value) (path : Text) :
    (v.plain.leavesAt path).map Prod.fst = (v.leavesAt path).map Prod.fst := by
  rw [leavesAt_plain, List.map_map]
  rfl

end Value

namespace Entries

theorem plainEntries_set (m : Entries Value) (key : Text) (v : Value) :
    Value.plainEntries (set m key v) = set (Value.plainEntries m) key v.plain := by
  induction m with
  | nil => rfl
  | cons entry rest ih =>
      obtain ⟨k, w⟩ := entry
      rw [set, Value.plainEntries, set]
      split
      · rfl
      · rw [Value.plainEntries, ih]

end Entries

end InverseTemplate
