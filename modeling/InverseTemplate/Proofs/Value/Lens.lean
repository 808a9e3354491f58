/-
# Writing at a path and reading again

A write makes a path and a record a lens.  What was written is read at the path, and below it what
is below the value; above the path there are maps, whatever stood there; everywhere else
everything is as before, absent where it was absent.  Writing what is there changes nothing, and
of two writes at one path the later one counts.

Two writes apart from each other commute but for the order of the keys: where their ways part, each
write may put a new key at the end, and the later one puts it last.  `Rearranged` is equality up to
this, said of every place of the record.
-/
import InverseTemplate.Proofs.Value.Place

namespace InverseTemplate

namespace Entries

open Value

/-! ## Two writes at one path -/

theorem below_set_self (m : Entries Value) (key : Text) (entries : Entries Value) :
    below (set m key (.map entries)) key = entries := by
  rw [below, get?_set_self]

theorem setPath_setPath (m : Entries Value) (ks : List Text) (v w : Value) :
    setPath (setPath m ks v) ks w = setPath m ks w := by
  induction ks generalizing m with
  | nil => rfl
  | cons key rest ih =>
      cases rest with
      | nil => exact set_set m key v w
      | cons next more =>
          rw [setPath_cons_cons, setPath_cons_cons, setPath_cons_cons, below_set_self, set_set,
            ih (below m key)]

theorem setPath_eq_self {m : Entries Value} {ks : List Text} {v : Value}
    (h : getPath? (.map m) ks = some v) : setPath m ks v = m := by
  induction ks generalizing m with
  | nil => rfl
  | cons key rest ih =>
      rw [getPath?_map_cons] at h
      obtain ⟨x, hx, hrest⟩ := Option.bind_eq_some_iff.mp h
      cases rest with
      | nil =>
          cases hrest
          exact set_eq_self hx
      | cons next more =>
          obtain ⟨entries, rfl⟩ := exists_map_of_isMap (isMap_of_getPath?_cons hrest)
          have hbelow : below m key = entries := by rw [below, hx]
          rw [setPath_cons_cons, hbelow, ih hrest]
          exact set_eq_self hx

/-! ## The same but for the order of keys -/

/-- What stands at a place in two records: maps with the same keys in any order, or the same. -/
def Corresponds : Option Value → Option Value → Prop
  | some (.map a), some (.map b) => (keys a).Perm (keys b)
  | v, w => v = w

/-- The records hold the same at every place, but for the order of the keys of their maps. -/
def Rearranged (a b : Entries Value) : Prop :=
  ∀ way, Corresponds (getPath? (.map a) way) (getPath? (.map b) way)

theorem Corresponds.refl (v : Option Value) : Corresponds v v := by
  cases v with
  | none => rfl
  | some v =>
      cases v with
      | map entries => exact List.Perm.refl _
      | _ => rfl

theorem Rearranged.set {a b : Entries Value} (h : Rearranged a b) (m : Entries Value) (key : Text) :
    Rearranged (set m key (.map a)) (set m key (.map b)) := by
  intro way
  cases way with
  | nil =>
      show (keys _).Perm (keys _)
      rw [keys_set, keys_set]
  | cons k more =>
      rw [getPath?_map_cons, getPath?_map_cons]
      by_cases hk : k = key
      · subst hk
        rw [get?_set_self, get?_set_self]
        exact h more
      · rw [get?_set_ne m _ hk, get?_set_ne m _ hk]
        exact Corresponds.refl _

theorem keys_set_set_perm {α : Type} (m : Entries α) {key other : Text} (hne : key ≠ other)
    (v w : α) :
    (keys (set (set m key v) other w)).Perm (keys (set (set m other w) key v)) := by
  simp only [keys_set]
  by_cases hkey : key ∈ keys m
  · by_cases hother : other ∈ keys m
    · simp [hkey, hother]
    · simp [hkey, hother]
  · by_cases hother : other ∈ keys m
    · simp [hkey, hother]
    · simp only [hkey, hother, if_false, List.mem_append, List.mem_singleton, hne, hne.symm,
        or_self, List.append_assoc]
      exact List.perm_append_comm.append_left (keys m)

theorem rearranged_set_set (m : Entries Value) {key other : Text} (hne : key ≠ other)
    (v w : Value) : Rearranged (set (set m key v) other w) (set (set m other w) key v) := by
  intro way
  cases way with
  | nil => exact keys_set_set_perm m hne v w
  | cons k more =>
      have hget : get? (set (set m key v) other w) k = get? (set (set m other w) key v) k := by
        by_cases hother : k = other
        · subst hother
          rw [get?_set_self, get?_set_ne _ _ hne.symm, get?_set_self]
        · by_cases hkey : k = key
          · subst hkey
            rw [get?_set_ne _ _ hne, get?_set_self, get?_set_self]
          · rw [get?_set_ne _ _ hother, get?_set_ne _ _ hkey, get?_set_ne _ _ hkey,
              get?_set_ne _ _ hother]
      rw [getPath?_map_cons, getPath?_map_cons, hget]
      exact Corresponds.refl _

/-- Writes apart from each other commute but for the order of keys. -/
theorem rearranged_setPath_setPath (m : Entries Value) {ks qs : List Text}
    (h : Path.Apart ks qs) (v w : Value) :
    Rearranged (setPath (setPath m ks v) qs w) (setPath (setPath m qs w) ks v) := by
  induction ks generalizing m qs with
  | nil => exact absurd List.nil_prefix h.1
  | cons key rest ih =>
      cases qs with
      | nil => exact absurd List.nil_prefix h.2
      | cons q qs =>
          by_cases hq : q = key
          · -- both ways go on below the key
            subst hq
            have hrest := h.of_cons
            obtain ⟨next, more, rfl⟩ : ∃ next more, rest = next :: more :=
              List.exists_cons_of_ne_nil fun hnil => hrest.1 (hnil ▸ List.nil_prefix)
            obtain ⟨next', more', rfl⟩ : ∃ next more, qs = next :: more :=
              List.exists_cons_of_ne_nil fun hnil => hrest.2 (hnil ▸ List.nil_prefix)
            rw [setPath_cons_cons, setPath_cons_cons, setPath_cons_cons m, setPath_cons_cons,
              below_set_self, below_set_self, set_set, set_set]
            exact (ih (below m q) hrest).set m q
          · -- here the ways part
            rw [setPath_cons, setPath_cons, setPath_cons m, setPath_cons,
              get?_set_ne _ _ hq, get?_set_ne _ _ (Ne.symm hq)]
            exact rearranged_set_set m (Ne.symm hq) _ _

/-! ## The laws of a write -/

/-- A write at a path is read at the path and below it, has maps above it, and does not show apart
from it; it changes nothing if it writes what is there, gives way to a second one at the path, and
commutes with writes at paths apart from it but for the order of keys. -/
theorem setPath_split_laws (m : Entries Value) (path : Text) (v : Value) :
    let way := Path.split path
    let written := Value.map (setPath m way v)
    getPath? written way = some v ∧
    (∀ more, getPath? written (way ++ more) = getPath? v more) ∧
    (∀ above, above <+: way → above ≠ way →
      ∃ entries, getPath? written above = some (.map entries)) ∧
    (∀ place, ¬ way <+: place → ¬ place <+: way →
      getPath? written place = getPath? (.map m) place) ∧
    (getPath? (.map m) way = some v → setPath m way v = m) ∧
    (∀ w, setPath (setPath m way v) way w = setPath m way w) ∧
    ∀ other w, ¬ way <+: Path.split other → ¬ Path.split other <+: way →
      Rearranged (setPath (setPath m way v) (Path.split other) w)
        (setPath (setPath m (Path.split other) w) way v) := by
  intro way written
  have hself : getPath? written way = some v :=
    getPath?_setPath_self m (List.splitOn_ne_nil '.' path) v
  refine ⟨hself, fun more => ?_, fun above hbegin hne => ?_, fun place hplace hway => ?_,
    setPath_eq_self, setPath_setPath m way v, fun other w hother hway => ?_⟩
  · rw [getPath?_append, hself, Option.bind_some]
  · exact exists_map_of_isPrefix hbegin hne hself
  · exact getPath?_setPath_of_apart m ⟨hplace, hway⟩ v
  · exact rearranged_setPath_setPath m ⟨hother, hway⟩ v w

/-- A write through a number, by way of an empty key: beside its way there is as little as before,
and a second write beside it makes the two keys come out in one order or the other. -/
theorem setPath_split_laws_through_number :
    let m := [(text "a", Value.int 1), (text "b", .list [.null])]
    let way := Path.split (text "a..x")
    let v := Value.map [(text "y", .bool true)]
    let beside := Path.split (text "a.z")
    way = [text "a", [], text "x"] ∧
    getPath? (.map (setPath m way v)) (way ++ [text "y"]) = some (.bool true) ∧
    (∃ entries, getPath? (.map (setPath m way v)) [text "a"] = some (.map entries)) ∧
    getPath? (.map (setPath m way v)) beside = none ∧
    getPath? (.map (setPath m way v)) [text "b"] = some (.list [.null]) ∧
    setPath (setPath m way v) way v = setPath m way v ∧
    Rearranged (setPath (setPath m way v) beside .null) (setPath (setPath m beside .null) way v) ∧
    (getPath? (.map (setPath (setPath m way v) beside .null)) [text "a"]).map
      (·.entries?.map keys) = some (some [[], text "z"]) ∧
    (getPath? (.map (setPath (setPath m beside .null) way v)) [text "a"]).map
      (·.entries?.map keys) = some (some [text "z", []]) := by
  intro m way v beside
  obtain ⟨hself, hbelow, habove, hframe, -, -, hcomm⟩ := setPath_split_laws m (text "a..x") v
  obtain ⟨-, -, -, -, hsame, -, -⟩ := setPath_split_laws (setPath m way v) (text "a..x") v
  refine ⟨by decide +kernel, ?_, ?_, ?_, ?_, hsame hself, ?_, by decide +kernel,
    by decide +kernel⟩
  · exact (hbelow [text "y"]).trans rfl
  · exact habove [text "a"] (by decide +kernel) (by decide +kernel)
  · exact (hframe beside (by decide +kernel) (by decide +kernel)).trans rfl
  · exact (hframe [text "b"] (by decide +kernel) (by decide +kernel)).trans rfl
  · exact hcomm (text "a.z") .null (by decide +kernel) (by decide +kernel)

end Entries

end InverseTemplate
