/-
# Equality of values, key by key

Equality of two maps is decided by going through the entries of one of them.  Here it is read the
way it is used: two maps are equal when they hold equal values under every key (`equal_map_iff`).
A map that holds a key twice would break that reading, so the maps compared are well formed.

Equality does not see the spelling of arrays: a value equals another one exactly if the plain forms
of them are equal.
-/
import InverseTemplate.Proofs.Entries
import InverseTemplate.Value.Equality

namespace InverseTemplate

namespace Entries

variable {α : Type}

theorem get?_plainEntries (m : Entries Value) (key : Text) :
    get? (Value.plainEntries m) key = (get? m key).map Value.plain := by
  induction m with
  | nil => rfl
  | cons entry rest ih =>
      obtain ⟨k, v⟩ := entry
      rw [Value.plainEntries, get?, get?]
      split
      · rfl
      · exact ih

theorem keys_plainEntries (m : Entries Value) : keys (Value.plainEntries m) = keys m := by
  rw [Value.plainEntries_eq_map]
  simp [keys]

end Entries

namespace Value

/-! ## The plain form -/

theorem magnitude?_plain (v : Value) : v.plain.magnitude? = v.magnitude? := by
  cases v <;> rfl

theorem kind_plain (v : Value) : v.plain.kind = v.kind := by
  cases v <;> rfl

theorem isMap_plain (v : Value) : v.plain.isMap = v.isMap := by
  cases v <;> rfl

theorem items?_plain (v : Value) : v.plain.items? = v.items?.map plainItems := by
  cases v <;> rfl

mutual

theorem equal_plain : ∀ x y : Value, equal x y.plain = equal x y
  | .null, y => by rw [equal, equal, kind_plain]
  | .bool a, y => by cases y <;> rfl
  | .int n, y => by rw [equal, equal, magnitude?_plain]
  | .float f, y => by rw [equal, equal, magnitude?_plain]
  | .text s, y => by cases y <;> rfl
  | .list xs, y => by
      rw [equal, equal, items?_plain]
      cases y.items? with
      | none => rfl
      | some ys => exact equalItems_plain xs ys
  | .tuple xs, y => by
      rw [equal, equal, items?_plain]
      cases y.items? with
      | none => rfl
      | some ys => exact equalItems_plain xs ys
  | .map xs, y => by
      cases y with
      | map ys =>
          simp only [plain, equal]
          rw [Entries.keys_plainEntries, equalEntries_plain xs ys]
      | _ => rfl
  | .other s, y => by cases y <;> rfl

theorem equalItems_plain : ∀ xs ys : List Value, equalItems xs (plainItems ys) = equalItems xs ys
  | [], ys => by cases ys <;> rfl
  | x :: xs, ys => by
      cases ys with
      | nil => rfl
      | cons y ys =>
          simp only [plainItems, equalItems]
          rw [equal_plain x y, equalItems_plain xs ys]

theorem equalEntries_plain : ∀ (xs : List (Text × Value)) (ys : Entries Value),
    equalEntries xs (plainEntries ys) = equalEntries xs ys
  | [], ys => rfl
  | (k, x) :: xs, ys => by
      simp only [equalEntries]
      rw [Entries.get?_plainEntries, equalEntries_plain xs ys]
      cases Entries.get? ys k with
      | none => rfl
      | some y =>
          simp only [Option.map_some]
          rw [equal_plain x y]

end

mutual

theorem plain_equal : ∀ x y : Value, equal x.plain y = equal x y
  | .list xs, y => by
      rw [plain, equal, equal]
      cases y.items? with
      | none => rfl
      | some ys => exact plainItems_equal xs ys
  | .tuple xs, y => by
      rw [plain, equal, equal]
      cases y.items? with
      | none => rfl
      | some ys => exact plainItems_equal xs ys
  | .map xs, y => by
      have hcontains : Entries.contains (plainEntries xs) = Entries.contains xs := by
        funext key
        rw [Entries.contains, Entries.get?_plainEntries, Option.isSome_map, Entries.contains]
      cases y with
      | map ys =>
          simp only [plain, equal]
          rw [hcontains, plainEntries_equal xs ys]
      | _ => rfl
  | .null, _ => rfl
  | .bool _, _ => rfl
  | .int _, _ => rfl
  | .float _, _ => rfl
  | .text _, _ => rfl
  | .other _, _ => rfl

theorem plainItems_equal : ∀ xs ys : List Value, equalItems (plainItems xs) ys = equalItems xs ys
  | [], _ => rfl
  | x :: xs, ys => by
      cases ys with
      | nil => rfl
      | cons y ys =>
          simp only [plainItems, equalItems]
          rw [plain_equal x y, plainItems_equal xs ys]

theorem plainEntries_equal : ∀ (xs : List (Text × Value)) (ys : Entries Value),
    equalEntries (plainEntries xs) ys = equalEntries xs ys
  | [], _ => rfl
  | (k, x) :: xs, ys => by
      simp only [plainEntries, equalEntries]
      rw [plainEntries_equal xs ys]
      cases Entries.get? ys k with
      | none => rfl
      | some y =>
          dsimp only
          rw [plain_equal x y]

end

/-! ## Maps and items -/

theorem wellFormedItems_iff {items : List Value} :
    WellFormedItems items ↔ ∀ v ∈ items, v.WellFormed := by
  induction items with
  | nil => simp [WellFormedItems]
  | cons v rest ih => rw [WellFormedItems, ih, List.forall_mem_cons]

theorem wellFormed_items? {v : Value} (hv : v.WellFormed) {items : List Value}
    (h : v.items? = some items) : WellFormedItems items := by
  cases v <;> simp [items?] at h
  all_goals
    subst h
    exact hv

theorem wellFormedEntries_iff {m : List (Text × Value)} :
    WellFormedEntries m ↔ ∀ entry ∈ m, entry.2.WellFormed := by
  induction m with
  | nil => simp [WellFormedEntries]
  | cons entry rest ih => rw [WellFormedEntries, ih, List.forall_mem_cons]

theorem wellFormed_of_mem {m : List (Text × Value)} (hm : WellFormedEntries m)
    {entry : Text × Value} (h : entry ∈ m) : entry.2.WellFormed :=
  wellFormedEntries_iff.mp hm entry h

theorem wellFormed_of_get? {m : Entries Value} (hm : WellFormedEntries m) {key : Text} {v : Value}
    (h : Entries.get? m key = some v) : v.WellFormed :=
  wellFormed_of_mem hm (Entries.mem_of_get? h)

theorem isMap_eq_of_equal {x y : Value} (h : equal x y = true) : x.isMap = y.isMap := by
  cases x <;> cases y <;> first | rfl | simp [equal, kind, magnitude?, items?] at h

theorem equalEntries_iff {xs : List (Text × Value)} {ys : Entries Value} :
    equalEntries xs ys = true ↔
      ∀ entry ∈ xs, ∃ y, Entries.get? ys entry.1 = some y ∧ equal entry.2 y = true := by
  induction xs with
  | nil => simp [equalEntries]
  | cons entry rest ih =>
      obtain ⟨k, x⟩ := entry
      rw [equalEntries, Bool.and_eq_true, ih, List.forall_mem_cons]
      refine and_congr ?_ Iff.rfl
      cases Entries.get? ys k with
      | none => simp
      | some y => simp

theorem equalItems_iff {xs ys : List Value} :
    equalItems xs ys = true ↔ xs.length = ys.length ∧
      ∀ (i : Nat) v w, xs[i]? = some v → ys[i]? = some w → equal v w = true := by
  induction xs generalizing ys with
  | nil => cases ys <;> simp [equalItems]
  | cons x xs ih =>
      cases ys with
      | nil => simp [equalItems]
      | cons y ys =>
          rw [equalItems, Bool.and_eq_true, ih, List.length_cons, List.length_cons,
            Nat.add_right_cancel_iff]
          constructor
          · rintro ⟨hfirst, hlen, hrest⟩
            refine ⟨hlen, fun i => ?_⟩
            cases i with
            | zero =>
                intro v w hv hw
                cases hv
                cases hw
                exact hfirst
            | succ i => exact hrest i
          · rintro ⟨hlen, hall⟩
            exact ⟨hall 0 x y rfl rfl, hlen, fun i => hall (i + 1)⟩

/-- Two entries of maps agree: both are missing, or both are there and equal. -/
def Agree : Option Value → Option Value → Prop
  | none, none => True
  | some x, some y => equal x y = true
  | _, _ => False

/-- Two maps are equal if they agree under every key. -/
theorem equal_map_iff {xs ys : Entries Value} (hxs : Entries.NodupKeys xs) :
    equal (.map xs) (.map ys) = true ↔
      ∀ key, Agree (Entries.get? xs key) (Entries.get? ys key) := by
  have hkeys : (Entries.keys ys).all (Entries.contains xs) = true ↔
      ∀ key, Entries.get? xs key = none → Entries.get? ys key = none := by
    rw [List.all_eq_true]
    constructor
    · intro h key hx
      rw [Entries.get?_eq_none_iff]
      intro hmem
      have := h key hmem
      rw [Entries.contains, hx] at this
      simp at this
    · intro h key hmem
      rw [Entries.contains]
      cases hx : Entries.get? xs key with
      | none => exact absurd hmem ((Entries.get?_eq_none_iff ys key).mp (h key hx))
      | some x => rfl
  rw [equal, Bool.and_eq_true, hkeys, equalEntries_iff]
  constructor
  · rintro ⟨hnone, hsome⟩ key
    cases hx : Entries.get? xs key with
    | none =>
        rw [hnone key hx]
        trivial
    | some x =>
        obtain ⟨y, hy, heq⟩ := hsome (key, x) (Entries.mem_of_get? hx)
        rw [hy]
        exact heq
  · intro h
    refine ⟨fun key hx => ?_, fun entry hentry => ?_⟩
    · have := h key
      rw [hx] at this
      cases hy : Entries.get? ys key with
      | none => rfl
      | some y =>
          rw [hy] at this
          exact this.elim
    · have := h entry.1
      rw [Entries.get?_of_mem hxs hentry] at this
      cases hy : Entries.get? ys entry.1 with
      | none =>
          rw [hy] at this
          exact this.elim
      | some y =>
          rw [hy] at this
          exact ⟨y, rfl, this⟩

/-! ## Reflexivity -/

mutual

theorem equal_refl : ∀ x : Value, WellFormed x → equal x x = true
  | .null, _ => rfl
  | .bool b, _ => decide_eq_true rfl
  | .int n, _ => decide_eq_true rfl
  | .float f, _ => decide_eq_true rfl
  | .text t, _ => decide_eq_true rfl
  | .list xs, h => equalItems_refl xs h
  | .tuple xs, h => equalItems_refl xs h
  | .map xs, h => by
      rw [equal, Bool.and_eq_true, equalEntries_iff]
      refine ⟨?_, fun entry hentry => ⟨entry.2, Entries.get?_of_mem h.1 hentry, ?_⟩⟩
      · rw [List.all_eq_true]
        intro key hkey
        rw [Entries.contains, Option.isSome_iff_ne_none]
        exact fun h0 => (Entries.get?_eq_none_iff xs key).mp h0 hkey
      · exact equalEntries_refl xs h.2 entry hentry
  | .other tag, _ => decide_eq_true rfl

theorem equalItems_refl : ∀ xs : List Value, WellFormedItems xs → equalItems xs xs = true
  | [], _ => rfl
  | x :: xs, h => by
      rw [equalItems, Bool.and_eq_true]
      exact ⟨equal_refl x h.1, equalItems_refl xs h.2⟩

theorem equalEntries_refl : ∀ xs : List (Text × Value), WellFormedEntries xs →
    ∀ entry ∈ xs, equal entry.2 entry.2 = true
  | [], _, entry, hentry => by simp at hentry
  | (k, x) :: xs, h, entry, hentry => by
      rcases List.mem_cons.mp hentry with rfl | hmem
      · exact equal_refl x h.1
      · exact equalEntries_refl xs h.2 entry hmem

end

theorem agree_refl {current : Option Value} (h : ∀ v ∈ current, v.WellFormed) :
    Agree current current := by
  cases current with
  | none => trivial
  | some v => exact equal_refl v (h v rfl)

end Value

end InverseTemplate
