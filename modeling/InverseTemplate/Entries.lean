/-
# Ordered maps with text keys

A map is the list of its entries in the order in which their keys were first written.  Writing
a key that is there already keeps its place and changes its value; a new key goes to the end.
Looking up finds the first entry of a key, so a list that happens to hold a key twice behaves
like the one without the later entries; `NodupKeys` says that this does not happen, and
every operation here keeps it.
-/
import InverseTemplate.Text.Basic

namespace InverseTemplate

/-- The entries of an ordered map. -/
abbrev Entries (α : Type) : Type := List (Text × α)

namespace Entries

variable {α : Type}

/-- The keys in their order. -/
def keys (m : Entries α) : List Text := m.map Prod.fst

/-- The value of a key. -/
def get? : Entries α → Text → Option α
  | [], _ => none
  | (k, v) :: rest, key => if k = key then some v else get? rest key

/-- Is the key there? -/
def contains (m : Entries α) (key : Text) : Bool := (get? m key).isSome

/-- Writes the value of a key: in its place if it is there, else at the end. -/
def set : Entries α → Text → α → Entries α
  | [], key, value => [(key, value)]
  | (k, v) :: rest, key, value =>
      if k = key then (k, value) :: rest else (k, v) :: set rest key value

/-- The map left by a sequence of writes. -/
def ofWrites (writes : List (Text × α)) : Entries α :=
  writes.foldl (fun m write => set m write.1 write.2) []

/-- The entries whose keys have a property. -/
def filterKeys (p : Text → Bool) (m : Entries α) : Entries α := m.filter fun entry => p entry.1

/-- No key occurs twice. -/
def NodupKeys (m : Entries α) : Prop := (keys m).Nodup

/-! ## Reading after writing -/

@[simp] theorem get?_nil (key : Text) : get? ([] : Entries α) key = none := rfl

theorem get?_set_self (m : Entries α) (key : Text) (value : α) :
    get? (set m key value) key = some value := by
  induction m with
  | nil => simp [set, get?]
  | cons entry rest ih =>
      obtain ⟨k, v⟩ := entry
      by_cases h : k = key <;> simp [set, get?, h, ih]

theorem get?_set_ne (m : Entries α) {key other : Text} (value : α) (h : other ≠ key) :
    get? (set m key value) other = get? m other := by
  induction m with
  | nil => simp [set, get?, Ne.symm h]
  | cons entry rest ih =>
      obtain ⟨k, v⟩ := entry
      by_cases hk : k = key
      · subst hk
        simp [set, get?, Ne.symm h]
      · rw [set, if_neg hk]
        by_cases ho : k = other <;> simp [get?, ho, ih]

theorem get?_eq_none_iff (m : Entries α) (key : Text) : get? m key = none ↔ key ∉ keys m := by
  induction m with
  | nil => simp [keys]
  | cons entry rest ih =>
      obtain ⟨k, v⟩ := entry
      simp only [keys] at ih
      by_cases h : k = key
      · simp [get?, keys, h]
      · simp [get?, keys, h, ih, Ne.symm h]

theorem keys_set (m : Entries α) (key : Text) (value : α) :
    keys (set m key value) = if key ∈ keys m then keys m else keys m ++ [key] := by
  induction m with
  | nil => simp [set, keys]
  | cons entry rest ih =>
      obtain ⟨k, v⟩ := entry
      simp only [keys] at ih
      by_cases h : k = key
      · simp [set, keys, h]
      · simp only [set, keys, h, if_false, List.map_cons, List.mem_cons, Ne.symm h, false_or, ih]
        split <;> simp_all

theorem NodupKeys.set {m : Entries α} (h : NodupKeys m) (key : Text) (value : α) :
    NodupKeys (set m key value) := by
  unfold NodupKeys at *
  rw [keys_set]
  split
  · exact h
  · next hk =>
      rw [List.nodup_append]
      refine ⟨h, by simp, ?_⟩
      intro a ha b hb
      rw [List.mem_singleton] at hb
      subst hb
      intro hab
      exact hk (hab ▸ ha)

end Entries

end InverseTemplate
