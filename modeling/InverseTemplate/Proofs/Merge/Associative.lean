/-
# Merges in a row

Edits that are applied one after another can be merged first and applied at once: for every array
policy the record is the same (`applyExtracted_assoc`), the order of the keys at every level
included.  The record and the edits have to agree on what is a map and what is an array, wherever
two of them have something (`Conform`); else an edit may wipe out what a later one builds on.

Under one key there are three values, and each may be missing.  If the first edit has none there,
the second one is merged as it is or in its plain form; if the record has none, the edits are.
With all three present they are three maps, and the induction goes down; three arrays, whose
combination is associative; or something else, of which the last one is left.
-/
import InverseTemplate.Proofs.Merge.Plain

namespace InverseTemplate

namespace Value

/-- Wherever both values have something, both have a map or neither of them, and both have an array
or neither of them. -/
def Conform (v w : Value) : Prop :=
  ∀ way x y, getPath? v way = some x → getPath? w way = some y →
    x.isMap = y.isMap ∧ x.items?.isSome = y.items?.isSome

namespace Conform

theorem isMap_eq {v w : Value} (h : Conform v w) : v.isMap = w.isMap := (h [] v w rfl rfl).1

theorem isSome_items?_eq {v w : Value} (h : Conform v w) : v.items?.isSome = w.items?.isSome :=
  (h [] v w rfl rfl).2

theorem of_get? {a b : Entries Value} (h : Conform (.map a) (.map b)) {key : Text} {v w : Value}
    (hv : Entries.get? a key = some v) (hw : Entries.get? b key = some w) : Conform v w := by
  intro way x y hx hy
  refine h (key :: way) x y ?_ ?_
  · rw [getPath?_map_cons, hv, Option.bind_some, hx]
  · rw [getPath?_map_cons, hw, Option.bind_some, hy]

theorem of_forall {a b : Entries Value}
    (h : ∀ entry ∈ a, ∀ w ∈ Entries.get? b entry.1, Conform entry.2 w) :
    Conform (.map a) (.map b) := by
  intro way x y hx hy
  cases way with
  | nil =>
      cases hx
      cases hy
      exact ⟨rfl, rfl⟩
  | cons key more =>
      rw [getPath?_map_cons] at hx hy
      obtain ⟨v, hv, hx⟩ := Option.bind_eq_some_iff.mp hx
      obtain ⟨w, hw, hy⟩ := Option.bind_eq_some_iff.mp hy
      exact h (key, v) (Entries.mem_of_get? hv) w hw more x y hx hy

theorem of_not_map {v w : Value} (hv : v.isMap = false) (hw : w.isMap = false)
    (h : v.items?.isSome = w.items?.isSome) : Conform v w := by
  intro way x y hx hy
  cases way with
  | nil =>
      cases hx
      cases hy
      exact ⟨hv.trans hw.symm, h⟩
  | cons key more =>
      rw [getPath?_cons_of_isLeaf (isLeaf_of_not_map hv)] at hx
      exact absurd hx (by simp)

end Conform

end Value

namespace Merge

open Value

variable {policy : ArrayMerge}

/-! ## Three values -/

theorem combine_assoc (xs ys zs : List Value) :
    policy.combine (policy.combine xs ys) zs = policy.combine xs (policy.combine ys zs) := by
  cases policy <;> simp [ArrayMerge.combine, plainItems_append]

/-- Three values none of which is a map: all of them are arrays, or none is. -/
theorem overlay_assoc {old : Option Value} {v w : Value}
    (hvw : v.items?.isSome = w.items?.isSome)
    (hold : ∀ o ∈ old, o.items?.isSome = v.items?.isSome) :
    overlay policy (some (overlay policy old v)) w =
      overlay policy old (overlay policy (some v) w) := by
  cases hw : w.items? with
  | none =>
      rw [overlay_of_not_arrays (.inl hw), overlay_of_not_arrays (.inl hw), overlay_of_plain,
        overlay_of_not_arrays (.inl hw)]
  | some zs =>
      obtain ⟨ys, hv⟩ : ∃ ys, v.items? = some ys := by
        rw [hw] at hvw
        exact Option.isSome_iff_exists.mp hvw
      cases old with
      | none =>
          rw [overlay_of_nothing, overlay_of_nothing, plain_overlay]
          exact overlay_plain (some v) w
      | some o =>
          obtain ⟨xs, ho⟩ : ∃ xs, (some o).bind items? = some xs := by
            have hsome := hold o rfl
            rw [hv] at hsome
            exact Option.isSome_iff_exists.mp hsome
          have hov : overlay policy (some o) v = .list (policy.combine xs ys) :=
            overlay_of_arrays hv ho
          have hvw : overlay policy (some v) w = .list (policy.combine ys zs) :=
            overlay_of_arrays hw (show (some v).bind items? = some ys from hv)
          calc overlay policy (some (overlay policy (some o) v)) w
              = .list (policy.combine (policy.combine xs ys) zs) := by
                rw [hov]
                exact overlay_of_arrays hw rfl
            _ = .list (policy.combine xs (policy.combine ys zs)) := by rw [combine_assoc]
            _ = overlay policy (some o) (overlay policy (some v) w) := by
                rw [hvw]
                exact (overlay_of_arrays rfl ho).symm

/-! ## Three maps -/

/-- The keys of three maps come in the order of their first occurrence, whichever two are merged
first. -/
theorem keys_mergeEntries_assoc {a b c : Entries Value} (hb : Entries.NodupKeys b)
    (hc : Entries.NodupKeys c) (above : Text) :
    Entries.keys (mergeEntries policy none above (mergeEntries policy none above a b) c) =
      Entries.keys (mergeEntries policy none above a (mergeEntries policy none above b c)) := by
  have hnew : (Entries.keys c).filter
        (· ∉ Entries.keys a ++ (Entries.keys b).filter (· ∉ Entries.keys a)) =
      ((Entries.keys c).filter (· ∉ Entries.keys b)).filter (· ∉ Entries.keys a) := by
    rw [List.filter_filter]
    refine List.filter_congr fun key _ => ?_
    by_cases ha : key ∈ Entries.keys a <;> simp [ha]
  rw [keys_mergeEntries hc, keys_mergeEntries hb, keys_mergeEntries (nodupKeys_mergeEntries hb _ _),
    keys_mergeEntries hc, hnew, List.filter_append, List.append_assoc]

theorem mergeEntries_assoc_of_forall {above : Text} {a b c : Entries Value}
    (ha : Entries.NodupKeys a) (hb : Entries.NodupKeys b) (hc : (Value.map c).WellFormed)
    (h : ∀ key v w, Entries.get? b key = some v → Entries.get? c key = some w →
      merged policy none (Path.join above key)
          (merged policy none (Path.join above key) (Entries.get? a key) (some v)) (some w) =
        merged policy none (Path.join above key) (Entries.get? a key)
          (merged policy none (Path.join above key) (some v) (some w))) :
    mergeEntries policy none above (mergeEntries policy none above a b) c =
      mergeEntries policy none above a (mergeEntries policy none above b c) := by
  refine Entries.ext_of_keys (keys_mergeEntries_assoc hb hc.1 above)
    (nodupKeys_mergeEntries (nodupKeys_mergeEntries ha above b) above c) fun key => ?_
  rw [get?_mergeEntries hc.1, get?_mergeEntries hb,
    get?_mergeEntries (nodupKeys_mergeEntries hb above c), get?_mergeEntries hc.1]
  cases hw : Entries.get? c key with
  | none => rfl
  | some w =>
      cases hv : Entries.get? b key with
      | none => rw [merged_of_nothing (wellFormed_of_get? hc.2 hw), merged_of_plain, merged]
      | some v => exact h key v w hv hw

theorem merged_assoc {v w : Value} (hv : v.WellFormed) (hw : w.WellFormed) (hvw : Conform v w)
    {current : Option Value} (hcurrent : ∀ o ∈ current, o.WellFormed)
    (hold : ∀ o ∈ current, Conform o v ∧ Conform o w) (path : Text) :
    merged policy none path (merged policy none path current (some v)) (some w) =
      merged policy none path current (merged policy none path (some v) (some w)) := by
  induction w using mapInduction generalizing v current path with
  | whole w hwhole =>
      have hmap : v.isMap = false := hvw.isMap_eq.trans hwhole
      rw [merged_of_whole hmap, merged_of_whole hwhole, merged_of_whole hwhole,
        merged_of_whole (isMap_overlay hwhole)]
      exact congrArg some
        (overlay_assoc hvw.isSome_items?_eq fun o ho => (hold o ho).1.isSome_items?_eq)
  | map c ih =>
      obtain ⟨b, rfl⟩ := exists_map_of_isMap hvw.isMap_eq
      have hmaps : ∀ a : Entries Value, (Value.map a).WellFormed → Conform (.map a) (.map b) →
          Conform (.map a) (.map c) →
          mergeEntries policy none path (mergeEntries policy none path a b) c =
            mergeEntries policy none path a (mergeEntries policy none path b c) := by
        intro a ha hab hac
        refine mergeEntries_assoc_of_forall ha.1 hv.1 hw fun key x y hx hy => ?_
        exact ih (key, y) (Entries.mem_of_get? hy) (wellFormed_of_get? hv.2 hx)
          (wellFormed_of_get? hw.2 hy) (hvw.of_get? hx hy)
          (fun o ho => wellFormed_of_get? ha.2 ho)
          (fun o ho => ⟨hab.of_get? ho hx, hac.of_get? ho hy⟩) _
      cases current with
      | none =>
          have hnone : ∀ entries : Entries Value,
              merged policy none path none (some (.map entries)) =
              some (.map (mergeEntries policy none path [] entries)) := by
            intro entries
            rw [merged_map_of_not_map (by simp), merged_map_map]
          rw [merged_map_map, hnone, hnone, merged_map_map,
            hmaps [] wellFormed_empty (.of_forall (by simp)) (.of_forall (by simp))]
      | some o =>
          obtain ⟨hab, hac⟩ := hold o rfl
          obtain ⟨a, rfl⟩ := exists_map_of_isMap hab.isMap_eq
          rw [merged_map_map, merged_map_map, merged_map_map, merged_map_map,
            hmaps a (hcurrent _ rfl) hab hac]

variable {a b c : Entries Value}

theorem mergeEntries_assoc (ha : (Value.map a).WellFormed) (hb : (Value.map b).WellFormed)
    (hc : (Value.map c).WellFormed) (hab : Conform (.map a) (.map b))
    (hac : Conform (.map a) (.map c)) (hbc : Conform (.map b) (.map c)) (above : Text) :
    mergeEntries policy none above (mergeEntries policy none above a b) c =
      mergeEntries policy none above a (mergeEntries policy none above b c) :=
  mergeEntries_assoc_of_forall ha.1 hb.1 hc fun _ _ _ hv hw =>
    merged_assoc (wellFormed_of_get? hb.2 hv) (wellFormed_of_get? hc.2 hw) (hbc.of_get? hv hw)
      (fun _ ho => wellFormed_of_get? ha.2 ho)
      (fun _ ho => ⟨hab.of_get? ho hv, hac.of_get? ho hw⟩) _

theorem applyExtracted_assoc (policy : ArrayMerge) (ha : (Value.map a).WellFormed)
    (hb : (Value.map b).WellFormed) (hc : (Value.map c).WellFormed)
    (hab : Conform (.map a) (.map b)) (hac : Conform (.map a) (.map c))
    (hbc : Conform (.map b) (.map c)) :
    applyExtracted policy none (applyExtracted policy none (.map a) (.map b)) (.map c) =
      applyExtracted policy none (.map a) (applyExtracted policy none (.map b) (.map c)) := by
  simp only [applyExtracted, plainEntries_mergeEntries, plainEntries_plainEntries,
    mergeEntries_plainEntries]
  rw [mergeEntries_assoc ha hb hc hab hac hbc]

/-- Applying edits one after another leaves a record equal to what applying their merge leaves. -/
theorem equal_applyExtracted_assoc (policy : ArrayMerge) (ha : (Value.map a).WellFormed)
    (hb : (Value.map b).WellFormed) (hc : (Value.map c).WellFormed)
    (hab : Conform (.map a) (.map b)) (hac : Conform (.map a) (.map c))
    (hbc : Conform (.map b) (.map c)) :
    equal
      (applyExtracted policy none (applyExtracted policy none (.map a) (.map b)) (.map c))
      (applyExtracted policy none (.map a) (applyExtracted policy none (.map b) (.map c))) =
        true := by
  rw [applyExtracted_assoc policy ha hb hc hab hac hbc]
  exact equal_refl _ (wellFormed_applyExtracted ha (wellFormed_applyExtracted hb hc))

/-- A list and two tuples below one map are put together, and so are those that only two of the
three have; the number at the end comes from the last edit. -/
theorem equal_applyExtracted_assoc_prepended :
    let a := [(text "m", Value.map [(text "t", .list [.int 1])])]
    let b := [(text "s", Value.text (text "x")),
      (text "m", .map [(text "u", .tuple [.int 3]), (text "t", .tuple [.int 4, .int 5])])]
    let c := [(text "m", Value.map [(text "n", .null), (text "t", .tuple [.int 6]),
      (text "u", .list [.int 7])]), (text "s", .int 2)]
    let updated := applyExtracted .prepend none (.map a)
      (applyExtracted .prepend none (.map b) (.map c))
    (Value.map a).WellFormed ∧ (Value.map b).WellFormed ∧ (Value.map c).WellFormed ∧
      Conform (.map a) (.map b) ∧ Conform (.map a) (.map c) ∧ Conform (.map b) (.map c) ∧
      getPath? updated [text "m", text "t"] =
        some (.list [.int 6, .int 4, .int 5, .int 1]) ∧
      getPath? updated [text "m", text "u"] = some (.list [.int 7, .int 3]) ∧
      getPath? updated [text "s"] = some (.int 2) ∧
      equal
        (applyExtracted .prepend none (applyExtracted .prepend none (.map a) (.map b)) (.map c))
        updated = true := by
  intro a b c updated
  have ha : (Value.map a).WellFormed :=
    ⟨List.pairwise_singleton _ _, ⟨List.pairwise_singleton _ _, ⟨trivial, trivial⟩, trivial⟩,
      trivial⟩
  have hb : (Value.map b).WellFormed :=
    ⟨show [text "s", text "m"].Nodup by decide +kernel, trivial,
      ⟨show [text "u", text "t"].Nodup by decide +kernel, ⟨trivial, trivial⟩,
        ⟨trivial, trivial, trivial⟩, trivial⟩, trivial⟩
  have hc : (Value.map c).WellFormed :=
    ⟨show [text "m", text "s"].Nodup by decide +kernel,
      ⟨show [text "n", text "t", text "u"].Nodup by decide +kernel, trivial, ⟨trivial, trivial⟩,
        ⟨trivial, trivial⟩, trivial⟩, trivial, trivial⟩
  -- under the keys that two of them share there are two maps, two arrays or two other values
  have hone : ∀ {key v w} {others : Entries Value}, Entries.get? others key = some w →
      Conform v w → ∀ y ∈ Entries.get? others key, Conform v y := by
    intro key v w others hget hconform y hy
    cases hget.symm.trans hy
    exact hconform
  have hab : Conform (.map a) (.map b) := by
    refine .of_forall (List.forall_mem_singleton.mpr (hone rfl ?_))
    refine .of_forall (List.forall_mem_singleton.mpr (hone rfl ?_))
    exact .of_not_map rfl rfl rfl
  have hac : Conform (.map a) (.map c) := by
    refine .of_forall (List.forall_mem_singleton.mpr (hone rfl ?_))
    refine .of_forall (List.forall_mem_singleton.mpr (hone rfl ?_))
    exact .of_not_map rfl rfl rfl
  have hbc : Conform (.map b) (.map c) := by
    refine .of_forall (List.forall_mem_cons.mpr ⟨hone rfl (.of_not_map rfl rfl rfl), ?_⟩)
    refine List.forall_mem_singleton.mpr (hone rfl (.of_forall (List.forall_mem_cons.mpr ?_)))
    refine ⟨hone rfl (.of_not_map rfl rfl rfl), List.forall_mem_singleton.mpr ?_⟩
    exact hone rfl (.of_not_map rfl rfl rfl)
  exact ⟨ha, hb, hc, hab, hac, hbc, rfl, rfl, rfl,
    equal_applyExtracted_assoc .prepend ha hb hc hab hac hbc⟩

end Merge

end InverseTemplate
