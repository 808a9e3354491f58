/-
# Equality is an equivalence

Equality of two values is one comparison of what they are themselves, and the same question for
what they hold: scalars compare by magnitude if they are numbers and as they are otherwise
(`equal_scalar_iff`), arrays compare item by item whichever way they are spelled
(`equal_array_iff`), and maps key by key (`equal_map_iff`).  Each of the three comparisons is
symmetric and transitive, so equality is, by induction on the first value.

Reflexivity is where maps have to be well formed: of a key that is there twice only the first
value is ever found.  A value that caller code hands in goes by its tag, which stands for all that
is equal to it.  Its deep copy is made by caller code, too, and need not be one of these: that is
the only way for a value to differ from its deep copy (`clone_equal_iff`).
-/
import InverseTemplate.Proofs.Value.Nested

namespace InverseTemplate

namespace Value

/-- Neither an array nor a map. -/
def IsScalar (v : Value) : Prop := v.items? = none ∧ v.isMap = false

theorem sizeOf_lt_of_mem {entries : List (Text × Value)} {entry : Text × Value}
    (h : entry ∈ entries) :
    sizeOf entry.2 < sizeOf entries := by
  have hentry := List.sizeOf_lt_of_mem h
  rw [Prod.mk.sizeOf_spec] at hentry
  omega

/-- Induction over a value by all that it holds.  The two spellings of arrays are one case. -/
@[elab_as_elim]
theorem induction {motive : Value → Prop} (scalar : ∀ v, v.IsScalar → motive v)
    (array : ∀ v items, v.items? = some items → (∀ item ∈ items, motive item) → motive v)
    (map : ∀ entries : Entries Value, (∀ entry ∈ entries, motive entry.2) → motive (.map entries))
    (v : Value) : motive v := by
  cases v with
  | list items | tuple items =>
      exact array _ items rfl fun item _ => induction scalar array map item
  | map entries =>
      refine map entries fun entry hentry => ?_
      have := sizeOf_lt_of_mem hentry
      exact induction scalar array map entry.2
  | _ => exact scalar _ ⟨rfl, rfl⟩
termination_by v

/-! ## One comparison -/

/-- Two scalars are the same: one number, or one thing that is no number. -/
def SameScalar (v w : Value) : Prop :=
  v.magnitude? = w.magnitude? ∧ (v.magnitude? = none → v = w)

theorem SameScalar.symm {v w : Value} (h : SameScalar v w) : SameScalar w v :=
  ⟨h.1.symm, fun hw => (h.2 (h.1.trans hw)).symm⟩

theorem SameScalar.trans {u v w : Value} (huv : SameScalar u v) (hvw : SameScalar v w) :
    SameScalar u w :=
  ⟨huv.1.trans hvw.1, fun hu => (huv.2 hu).trans (hvw.2 (huv.1.symm.trans hu))⟩

theorem SameScalar.isScalar {v w : Value} (h : SameScalar v w) (hv : v.IsScalar) : w.IsScalar := by
  cases hm : v.magnitude? with
  | none => exact h.2 hm ▸ hv
  | some m =>
      have hw := h.1.symm.trans hm
      cases w <;> first | exact ⟨rfl, rfl⟩ | cases hw

theorem equal_scalar_iff {v w : Value} (hv : v.IsScalar) :
    equal v w = true ↔ SameScalar v w := by
  cases v with
  | list items => cases hv.1
  | tuple items => cases hv.1
  | map entries => cases hv.2
  | null => cases w <;> simp [equal, SameScalar, magnitude?, kind]
  | bool b => cases w <;> simp [equal, SameScalar, magnitude?]
  | int n => simp [equal, SameScalar, magnitude?, eq_comm]
  | float x => simp [equal, SameScalar, magnitude?, eq_comm]
  | text t => cases w <;> simp [equal, SameScalar, magnitude?]
  | other tag => cases w <;> simp [equal, SameScalar, magnitude?]

theorem equal_array_iff {v w : Value} {xs : List Value} (hv : v.items? = some xs) :
    equal v w = true ↔ ∃ ys, w.items? = some ys ∧ equalItems xs ys = true := by
  cases v with
  | list items | tuple items =>
      cases hv
      rw [equal]
      cases w.items? <;> simp
  | _ => cases hv

theorem exists_map_of_equal_map {xs : Entries Value} {w : Value} (h : equal (.map xs) w = true) :
    ∃ ys, w = .map ys :=
  exists_map_of_isMap (isMap_eq_of_equal h ▸ rfl)

theorem Agree.symm {a b : Option Value} (h : Agree a b)
    (hvalues : ∀ x ∈ a, ∀ y ∈ b, equal x y = true → equal y x = true) : Agree b a := by
  cases a with
  | none =>
      cases b with
      | none => trivial
      | some y => exact h.elim
  | some x =>
      cases b with
      | none => exact h.elim
      | some y => exact hvalues x rfl y rfl h

theorem Agree.trans {a b c : Option Value} (hab : Agree a b) (hbc : Agree b c)
    (hvalues : ∀ x ∈ a, ∀ y ∈ b, ∀ z ∈ c, equal x y = true → equal y z = true → equal x z = true) :
    Agree a c := by
  cases a with
  | none =>
      cases b with
      | none => exact hbc
      | some y => exact hab.elim
  | some x =>
      cases b with
      | none => exact hab.elim
      | some y =>
          cases c with
          | none => exact hbc.elim
          | some z => exact hvalues x rfl y rfl z rfl hab hbc

/-! ## The laws -/

theorem equal_symm {v w : Value} (hv : v.WellFormed) (hw : w.WellFormed) (h : equal v w = true) :
    equal w v = true := by
  induction v using induction generalizing w with
  | scalar v hscalar =>
      have hsame := (equal_scalar_iff hscalar).mp h
      exact (equal_scalar_iff (hsame.isScalar hscalar)).mpr hsame.symm
  | array v xs hxs ih =>
      obtain ⟨ys, hys, hitems⟩ := (equal_array_iff hxs).mp h
      obtain ⟨hlen, hall⟩ := equalItems_iff.mp hitems
      refine (equal_array_iff hys).mpr ⟨xs, hxs, equalItems_iff.mpr ⟨hlen.symm, ?_⟩⟩
      intro i y x hy hx
      have hx' := List.mem_of_getElem? hx
      refine ih x hx' ?_ ?_ (hall i x y hx hy)
      · exact wellFormedItems_iff.mp (wellFormed_items? hv hxs) x hx'
      · exact wellFormedItems_iff.mp (wellFormed_items? hw hys) y (List.mem_of_getElem? hy)
  | map xs ih =>
      obtain ⟨ys, rfl⟩ := exists_map_of_equal_map h
      refine (equal_map_iff hw.1).mpr fun key => ?_
      refine ((equal_map_iff hv.1).mp h key).symm fun x hx y hy => ?_
      exact ih (key, x) (Entries.mem_of_get? hx) (wellFormed_of_get? hv.2 hx)
        (wellFormed_of_get? hw.2 hy)

theorem equal_trans {u v w : Value} (hu : u.WellFormed) (hv : v.WellFormed) (hw : w.WellFormed)
    (huv : equal u v = true) (hvw : equal v w = true) : equal u w = true := by
  induction u using induction generalizing v w with
  | scalar u hscalar =>
      have hsame := (equal_scalar_iff hscalar).mp huv
      have hsame' := (equal_scalar_iff (hsame.isScalar hscalar)).mp hvw
      exact (equal_scalar_iff hscalar).mpr (hsame.trans hsame')
  | array u xs hxs ih =>
      obtain ⟨ys, hys, hitems⟩ := (equal_array_iff hxs).mp huv
      obtain ⟨zs, hzs, hitems'⟩ := (equal_array_iff hys).mp hvw
      obtain ⟨hlen, hall⟩ := equalItems_iff.mp hitems
      obtain ⟨hlen', hall'⟩ := equalItems_iff.mp hitems'
      refine (equal_array_iff hxs).mpr ⟨zs, hzs, equalItems_iff.mpr ⟨hlen.trans hlen', ?_⟩⟩
      intro i x z hx hz
      -- the list in between is as long, so it has an item there, too
      obtain ⟨y, hy⟩ : ∃ y, ys[i]? = some y := by
        obtain ⟨hi, -⟩ := List.getElem?_eq_some_iff.mp hx
        exact ⟨_, List.getElem?_eq_getElem (hlen ▸ hi)⟩
      have hx' := List.mem_of_getElem? hx
      refine ih x hx' ?_ ?_ ?_ (hall i x y hx hy) (hall' i y z hy hz)
      · exact wellFormedItems_iff.mp (wellFormed_items? hu hxs) x hx'
      · exact wellFormedItems_iff.mp (wellFormed_items? hv hys) y (List.mem_of_getElem? hy)
      · exact wellFormedItems_iff.mp (wellFormed_items? hw hzs) z (List.mem_of_getElem? hz)
  | map xs ih =>
      obtain ⟨ys, rfl⟩ := exists_map_of_equal_map huv
      obtain ⟨zs, rfl⟩ := exists_map_of_equal_map hvw
      refine (equal_map_iff hu.1).mpr fun key => ?_
      refine ((equal_map_iff hu.1).mp huv key).trans ((equal_map_iff hv.1).mp hvw key)
        fun x hx y hy z hz => ?_
      exact ih (key, x) (Entries.mem_of_get? hx) (wellFormed_of_get? hu.2 hx)
        (wellFormed_of_get? hv.2 hy) (wellFormed_of_get? hw.2 hz)

/-! ## Copies -/

section Copies

variable {copy : Text → Value}

theorem cloneItems_eq_map (items : List Value) :
    cloneItems copy items = items.map (clone copy) := by
  induction items with
  | nil => rfl
  | cons v rest ih => rw [cloneItems, ih, List.map_cons]

theorem get?_cloneEntries (m : Entries Value) (key : Text) :
    Entries.get? (cloneEntries copy m) key = (Entries.get? m key).map (clone copy) := by
  induction m with
  | nil => rfl
  | cons entry rest ih =>
      rw [cloneEntries, Entries.get?, Entries.get?]
      split
      · rfl
      · exact ih

theorem keys_cloneEntries (m : Entries Value) :
    Entries.keys (cloneEntries copy m) = Entries.keys m := by
  induction m with
  | nil => rfl
  | cons entry rest ih => exact congrArg (entry.1 :: ·) ih

theorem items?_clone {v : Value} {items : List Value} (h : v.items? = some items) :
    (v.clone copy).items? = some (items.map (clone copy)) := by
  rw [← cloneItems_eq_map]
  cases v <;> simp_all [items?, clone]

theorem mem_tagsOfItems {items : List Value} {tag : Text} :
    tag ∈ tagsOfItems items ↔ ∃ v ∈ items, tag ∈ v.tags := by
  induction items with
  | nil => simp [tagsOfItems]
  | cons v rest ih => simp [tagsOfItems, ih]

theorem mem_tagsOfEntries {m : List (Text × Value)} {tag : Text} :
    tag ∈ tagsOfEntries m ↔ ∃ entry ∈ m, tag ∈ entry.2.tags := by
  induction m with
  | nil => simp [tagsOfEntries]
  | cons entry rest ih =>
      simp only [tagsOfEntries, List.mem_append, ih, List.mem_cons, exists_eq_or_imp]

mutual

/-- Where opaque values are their own copies, a deep copy only spells the arrays as lists. -/
theorem clone_eq_plain : ∀ v : Value, (∀ tag ∈ v.tags, copy tag = .other tag) →
    v.clone copy = v.plain
  | .list items, h => congrArg Value.list (cloneItems_eq_plainItems items h)
  | .tuple items, h => congrArg Value.list (cloneItems_eq_plainItems items h)
  | .map entries, h => congrArg Value.map (cloneEntries_eq_plainEntries entries h)
  | .other tag, h => h tag (List.mem_singleton_self tag)
  | .null, _ => rfl
  | .bool _, _ => rfl
  | .int _, _ => rfl
  | .float _, _ => rfl
  | .text _, _ => rfl

theorem cloneItems_eq_plainItems : ∀ items : List Value,
    (∀ tag ∈ tagsOfItems items, copy tag = .other tag) → cloneItems copy items = plainItems items
  | [], _ => rfl
  | v :: rest, h => by
      obtain ⟨hv, hrest⟩ := List.forall_mem_append.mp h
      rw [cloneItems, clone_eq_plain v hv, cloneItems_eq_plainItems rest hrest, plainItems]

theorem cloneEntries_eq_plainEntries : ∀ entries : List (Text × Value),
    (∀ tag ∈ tagsOfEntries entries, copy tag = .other tag) →
      cloneEntries copy entries = plainEntries entries
  | [], _ => rfl
  | (k, v) :: rest, h => by
      obtain ⟨hv, hrest⟩ := List.forall_mem_append.mp h
      rw [cloneEntries, clone_eq_plain v hv, cloneEntries_eq_plainEntries rest hrest, plainEntries]

end

/-- A value is equal to its deep copy exactly if the opaque values in it are. -/
theorem clone_equal_iff {v : Value} (hv : v.WellFormed) :
    equal (v.clone copy) v = true ↔ ∀ tag ∈ v.tags, equal (copy tag) (.other tag) = true := by
  induction v using induction with
  | scalar v hscalar =>
      cases v with
      | list items => cases hscalar.1
      | tuple items => cases hscalar.1
      | map entries => cases hscalar.2
      | other tag => simp [clone, tags]
      | _ => exact iff_of_true (equal_refl _ hv) (List.forall_mem_nil _)
  | array v items hitems ih =>
      have htags : v.tags = tagsOfItems items := by
        cases v <;> simp_all [items?, tags]
      have hwf := wellFormedItems_iff.mp (wellFormed_items? hv hitems)
      rw [equal_array_iff (items?_clone hitems), htags]
      simp only [hitems, Option.some.injEq, exists_eq_left', equalItems_iff, mem_tagsOfItems]
      constructor
      · rintro ⟨-, hall⟩ tag ⟨item, hitem, htag⟩
        obtain ⟨i, hi⟩ := List.mem_iff_getElem?.mp hitem
        have hequal := hall i (item.clone copy) item (by rw [List.getElem?_map, hi]; rfl) hi
        exact (ih item hitem (hwf item hitem)).mp hequal tag htag
      · refine fun htags => ⟨List.length_map _, fun i x item hx hi => ?_⟩
        have hitem := List.mem_of_getElem? hi
        rw [List.getElem?_map, hi, Option.map_some, Option.some.injEq] at hx
        subst hx
        exact (ih item hitem (hwf item hitem)).mpr fun tag htag => htags tag ⟨item, hitem, htag⟩
  | map entries ih =>
      have hwf := wellFormedEntries_iff.mp hv.2
      have hnodup : Entries.NodupKeys (cloneEntries copy entries) := by
        rw [Entries.NodupKeys, keys_cloneEntries]
        exact hv.1
      rw [clone, equal_map_iff hnodup, tags]
      simp only [get?_cloneEntries, mem_tagsOfEntries]
      constructor
      · rintro hall tag ⟨entry, hentry, htag⟩
        have hagree := hall entry.1
        rw [Entries.get?_of_mem hv.1 hentry] at hagree
        exact (ih entry hentry (hwf entry hentry)).mp hagree tag htag
      · intro htags key
        cases hget : Entries.get? entries key with
        | none => trivial
        | some w =>
            have hentry := Entries.mem_of_get? hget
            exact (ih (key, w) hentry (hwf _ hentry)).mpr fun tag htag =>
              htags tag ⟨_, hentry, htag⟩

end Copies

/-- Equality of values is an equivalence, and a value is equal to its deep copy exactly if every
opaque value in it is equal to its own. -/
theorem equivalence_equal :
    Equivalence (fun v w : { v : Value // v.WellFormed } => equal v.1 w.1 = true) ∧
      ∀ (copy : Text → Value) (v : { v : Value // v.WellFormed }),
        equal (v.1.clone copy) v.1 = true ↔
          ∀ tag ∈ v.1.tags, equal (copy tag) (.other tag) = true where
  left :=
    { refl := fun v => equal_refl v.1 v.2
      symm := fun {v w} => equal_symm v.2 w.2
      trans := fun {u v w} => equal_trans u.2 v.2 w.2 }
  right _ v := clone_equal_iff v.2

/-- A list with an object that is compared by its identity is not equal to its deep copy. -/
theorem not_equal_clone_object :
    let object := Value.list [.int 1, .other (InverseTemplate.text "an object")]
    let copy (_ : Text) := Value.other (InverseTemplate.text "another object")
    object.WellFormed ∧ equal (object.clone copy) object = false :=
  ⟨⟨trivial, trivial, trivial⟩, by decide +kernel⟩

end Value

end InverseTemplate
