/-
# What a merge leaves at each place

Without selectors a merge is decided way by way, by what the record and the extracted data have on
the way:

* anything else than a map that was extracted stands where it was extracted, and nothing below it;
  if it is an array and the record has one there as well, the two are combined;
* where a map was extracted there is a map, and if the record has one there as well, its keys come
  first, in their order, and the new ones follow in theirs;
* everything else is as the record has it.

`MergedAt` says so of one way.  The induction goes down the way key by key.  Below a key for which a
map was extracted the merge goes on with that map and with whatever map the record has there, or an
empty one (`Entries.below`), so the three cases of a step are: nothing extracted, no map extracted,
a map extracted.
-/
import InverseTemplate.Proofs.Merge.Written

namespace InverseTemplate

theorem Value.getPath?_map_singleton (entries : Entries Value) (key : Text) :
    getPath? (.map entries) [key] = Entries.get? entries key := by
  rw [getPath?_map_cons]
  cases Entries.get? entries key <;> rfl

namespace Merge

open Value

variable {policy : ArrayMerge} {selectors : Option (List Text)}

/-! ## One level -/

/-- What is extracted and is no map, put where the record has `old`. -/
def overlay (policy : ArrayMerge) (old : Option Value) (v : Value) : Value :=
  match v.items?, old.bind items? with
  | some items, some base => .list (policy.combine base items)
  | _, _ => v.plain

theorem overlay_of_arrays {old : Option Value} {v : Value} {items base : List Value}
    (hv : v.items? = some items) (hold : old.bind items? = some base) :
    overlay policy old v = .list (policy.combine base items) := by
  rw [overlay, hv, hold]

theorem overlay_of_not_arrays {old : Option Value} {v : Value}
    (h : v.items? = none ∨ old.bind items? = none) : overlay policy old v = v.plain := by
  unfold overlay
  rcases h with h | h
  · rw [h]
  · rw [h]
    cases v.items? <;> rfl

theorem isMap_overlay {old : Option Value} {v : Value} (h : v.isMap = false) :
    (overlay policy old v).isMap = false := by
  unfold overlay
  split
  · rfl
  · rwa [isMap_plain]

theorem combine_plainItems (base items : List Value) :
    policy.combine (plainItems base) items = policy.combine base items := by
  cases policy <;> simp [ArrayMerge.combine]

theorem overlay_plain (old : Option Value) (v : Value) :
    overlay policy (old.map plain) v = overlay policy old v := by
  have hitems : (old.map plain).bind items? = (old.bind items?).map plainItems := by
    cases old with
    | none => rfl
    | some o => exact items?_plain o
  unfold overlay
  rw [hitems]
  cases v.items? with
  | none => rfl
  | some items =>
      cases old.bind items? with
      | none => rfl
      | some base => exact congrArg Value.list (combine_plainItems base items)

theorem mergeValue_of_whole {path : Text} {current : Option Value} {v : Value}
    (h : v.isMap = false) :
    mergeValue policy selectors path current v = some (overlay policy current v) := by
  cases v with
  | map entries => exact absurd h (by simp [isMap, entries?])
  | list items =>
      rw [mergeValue]
      split
      · next base hbase => rw [overlay_of_arrays rfl hbase]
      · next hnone => rw [overlay_of_not_arrays (.inr hnone), plain]
  | tuple items =>
      rw [mergeValue]
      split
      · next base hbase => rw [overlay_of_arrays rfl hbase]
      · next hnone => rw [overlay_of_not_arrays (.inr hnone), plain]
  | _ => rw [overlay_of_not_arrays (.inl rfl)]; rfl

/-- An extracted map is merged into the map that the record has under the key, or into an empty
one. -/
theorem mergeValue_none_map (path key : Text) (target entries : Entries Value) :
    mergeValue policy none path (Entries.get? target key) (.map entries) =
      some (.map (mergeEntries policy none path (Entries.below target key) entries)) := by
  unfold Entries.below
  rcases exists_map_or_forall (Entries.get? target key) with ⟨below, h⟩ | h
  · rw [h, mergeValue]
  · rw [mergeValue_map_of_not_map h, if_pos (.inr (Path.covered_none path))]
    split
    · next below hbelow => exact absurd (h _ hbelow) (by simp [isMap, entries?])
    · rfl

theorem keys_mergeEntries {entries : Entries Value} (hentries : Entries.NodupKeys entries)
    (above : Text) (target : Entries Value) :
    Entries.keys (mergeEntries policy none above target entries) =
      Entries.keys target ++ (Entries.keys entries).filter (· ∉ Entries.keys target) := by
  induction entries generalizing target with
  | nil => rw [mergeEntries]; exact (List.append_nil _).symm
  | cons entry rest ih =>
      obtain ⟨key, v⟩ := entry
      obtain ⟨hfirst, hrest⟩ := Entries.nodupKeys_cons_iff.mp hentries
      obtain ⟨w, hw⟩ : ∃ w, mergeValue policy none (Path.join above key)
          (Entries.get? target key) v = some w := by
        cases hmap : v.isMap with
        | false => exact ⟨_, mergeValue_of_whole hmap⟩
        | true =>
            obtain ⟨es, rfl⟩ := exists_map_of_isMap hmap
            exact ⟨_, mergeValue_none_map ..⟩
      have hcons : Entries.keys ((key, v) :: rest) = key :: Entries.keys rest := rfl
      rw [mergeEntries_cons_of_some rfl hw, ih hrest, Entries.keys_set, hcons]
      by_cases hkey : key ∈ Entries.keys target
      · rw [if_pos hkey, List.filter_cons_of_neg (by simpa using hkey)]
      · -- the key is new, and it does not come again
        have hnew : (Entries.keys rest).filter (· ∉ Entries.keys target ++ [key]) =
            (Entries.keys rest).filter (· ∉ Entries.keys target) := by
          refine List.filter_congr fun k hk => ?_
          have hne : k ≠ key := fun heq => hfirst (heq ▸ hk)
          simp [hne]
        rw [if_neg hkey, hnew, List.filter_cons_of_pos (by simpa using hkey), List.append_assoc,
          List.singleton_append]

/-! ## One way -/

/-- What a merge of the extracted value into the record's leaves at the end of a way. -/
structure MergedAt (policy : ArrayMerge) (original extracted result : Value) (way : List Text) :
    Prop where
  /-- Anything else than a map stands where it was extracted, combined with what was there if both
  are arrays. -/
  placed : ∀ v, getPath? extracted way = some v → v.isMap = false →
    getPath? result way = some (overlay policy (getPath? original way) v)
  /-- Below it there is nothing. -/
  cut : ∀ keys v, keys <+: way → keys ≠ way → getPath? extracted keys = some v →
    v.isMap = false → getPath? result way = none
  /-- Where a map was extracted there is a map. -/
  map : ∀ entries, getPath? extracted way = some (.map entries) →
    ∃ merged, getPath? result way = some (.map merged)
  /-- Everything else is as it was. -/
  kept : getPath? extracted way = none →
    (∀ keys v, keys <+: way → getPath? extracted keys = some v → v.isMap = true) →
    getPath? result way = (getPath? original way).map plain
  /-- Where two maps meet, the keys that were there come first and the new ones follow. -/
  keys : ∀ record entries, getPath? original way = some (.map record) →
    getPath? extracted way = some (.map entries) →
    ∃ merged, getPath? result way = some (.map merged) ∧
      Entries.keys merged =
        Entries.keys record ++ (Entries.keys entries).filter (· ∉ Entries.keys record)

variable {record entries : Entries Value} {result : Value} {key : Text} {more : List Text}

theorem mergedAt_nil {merged : Entries Value}
    (hkeys : Entries.keys merged =
      Entries.keys record ++ (Entries.keys entries).filter (· ∉ Entries.keys record)) :
    MergedAt policy (.map record) (.map entries) (.map merged) [] := by
  constructor
  · rintro v ⟨⟩ hmap
    exact absurd hmap (by simp [isMap, entries?])
  · intro keys v hprefix hne
    exact absurd (List.prefix_nil.mp hprefix) hne
  · exact fun es _ => ⟨merged, rfl⟩
  · exact fun h => absurd h (by simp [getPath?])
  · rintro _ _ ⟨⟩ ⟨⟩
    exact ⟨merged, rfl, hkeys⟩

theorem mergedAt_of_get?_eq_none (h : Entries.get? entries key = none)
    (hresult : getPath? result (key :: more) =
      (getPath? (.map record) (key :: more)).map plain) :
    MergedAt policy (.map record) (.map entries) result (key :: more) := by
  have hnone : ∀ p, getPath? (.map entries) (key :: p) = none := by
    intro p
    rw [getPath?_map_cons, h, Option.bind_none]
  constructor
  · intro v hv
    exact absurd hv (by simp [hnone])
  · intro keys v hprefix _ hv hmap
    cases keys with
    | nil =>
        cases hv
        exact absurd hmap (by simp [isMap, entries?])
    | cons k p =>
        obtain ⟨rfl, -⟩ := List.cons_prefix_cons.mp hprefix
        exact absurd hv (by simp [hnone])
  · intro es hes
    exact absurd hes (by simp [hnone])
  · exact fun _ _ => hresult
  · intro _ es _ hes
    exact absurd hes (by simp [hnone])

theorem mergedAt_of_not_map {v : Value} (h : Entries.get? entries key = some v)
    (hv : v.isMap = false)
    (hresult : getPath? result (key :: more) =
      getPath? (overlay policy (Entries.get? record key) v) more) :
    MergedAt policy (.map record) (.map entries) result (key :: more) := by
  have hhere : ∀ p, getPath? (.map entries) (key :: p) = getPath? v p := by
    intro p
    rw [getPath?_map_cons, h, Option.bind_some]
  have hleaf := isLeaf_of_not_map hv
  have hend : ∀ {p x}, getPath? (.map entries) (key :: p) = some x → p = [] ∧ x = v := by
    intro p x hx
    rw [hhere] at hx
    cases p with
    | nil => exact ⟨rfl, (Option.some.inj hx).symm⟩
    | cons k p =>
        rw [getPath?_cons_of_isLeaf hleaf] at hx
        exact absurd hx (by simp)
  constructor
  · intro x hx _
    obtain ⟨rfl, rfl⟩ := hend hx
    rw [hresult, getPath?_map_singleton]
    rfl
  · intro keys x hprefix hne hx hmap
    cases keys with
    | nil =>
        cases hx
        exact absurd hmap (by simp [isMap, entries?])
    | cons k p =>
        obtain ⟨rfl, -⟩ := List.cons_prefix_cons.mp hprefix
        obtain ⟨rfl, rfl⟩ := hend hx
        cases more with
        | nil => exact absurd rfl hne
        | cons next rest =>
            rw [hresult, getPath?_cons_of_isLeaf (isLeaf_of_not_map (isMap_overlay hv))]
  · intro es hes
    obtain ⟨-, rfl⟩ := hend hes
    exact absurd hv (by simp [isMap, entries?])
  · intro _ hmaps
    have hmap := hmaps [key] v (List.cons_prefix_cons.mpr ⟨rfl, List.nil_prefix⟩) (hhere [])
    rw [hv] at hmap
    exact absurd hmap (by simp)
  · intro _ es _ hes
    obtain ⟨-, rfl⟩ := hend hes
    exact absurd hv (by simp [isMap, entries?])

theorem MergedAt.cons {es : Entries Value} {merged : Value}
    (hmerged : MergedAt policy (.map (Entries.below record key)) (.map es) merged more)
    (h : Entries.get? entries key = some (.map es))
    (hresult : getPath? result (key :: more) = getPath? merged more) :
    MergedAt policy (.map record) (.map entries) result (key :: more) := by
  have hhere : ∀ p, getPath? (.map entries) (key :: p) = getPath? (.map es) p := by
    intro p
    rw [getPath?_map_cons, h, Option.bind_some]
  have hbelow : more ≠ [] →
      getPath? (.map record) (key :: more) = getPath? (.map (Entries.below record key)) more := by
    intro hne
    obtain ⟨next, rest, rfl⟩ := List.exists_cons_of_ne_nil hne
    exact Entries.getPath?_below record key next rest
  constructor
  · intro v hv hmap
    rw [hhere] at hv
    have hne : more ≠ [] := by
      rintro rfl
      cases hv
      exact absurd hmap (by simp [isMap, entries?])
    rw [hresult, hbelow hne]
    exact hmerged.placed v hv hmap
  · intro keys v hprefix hne hv hmap
    cases keys with
    | nil =>
        cases hv
        exact absurd hmap (by simp [isMap, entries?])
    | cons k p =>
        obtain ⟨rfl, hp⟩ := List.cons_prefix_cons.mp hprefix
        rw [hhere] at hv
        rw [hresult]
        exact hmerged.cut p v hp (fun heq => hne (heq ▸ rfl)) hv hmap
  · intro es' hes
    rw [hhere] at hes
    rw [hresult]
    exact hmerged.map es' hes
  · intro hnone hmaps
    rw [hhere] at hnone
    have hne : more ≠ [] := by
      rintro rfl
      exact absurd hnone (by simp [getPath?])
    rw [hresult, hbelow hne]
    refine hmerged.kept hnone fun keys v hp hv => ?_
    exact hmaps (key :: keys) v (List.cons_prefix_cons.mpr ⟨rfl, hp⟩) ((hhere keys).trans hv)
  · intro r es' hr hes
    rw [hhere] at hes
    rw [hresult]
    refine hmerged.keys r es' ?_ hes
    cases more with
    | nil =>
        rw [getPath?_map_singleton] at hr
        rw [Entries.below, hr]
        rfl
    | cons next rest => rw [← hbelow (by simp), hr]

/-- A merge without selectors is decided way by way. -/
theorem mergedAt_mergeEntries (hentries : (Value.map entries).WellFormed) (above : Text)
    (way : List Text) :
    MergedAt policy (.map record) (.map entries)
      (.map (mergeEntries policy none above (plainEntries record) entries)) way := by
  induction way generalizing record entries above with
  | nil =>
      refine mergedAt_nil ?_
      rw [keys_mergeEntries hentries.1, Entries.keys_plainEntries]
  | cons key more ih =>
      have hresult : getPath? (.map (mergeEntries policy none above (plainEntries record) entries))
          (key :: more) = (merged policy none (Path.join above key)
            ((Entries.get? record key).map plain) (Entries.get? entries key)).bind
              fun v => getPath? v more := by
        rw [getPath?_map_cons, get?_mergeEntries hentries.1, Entries.get?_plainEntries]
      cases hv : Entries.get? entries key with
      | none =>
          refine mergedAt_of_get?_eq_none hv ?_
          rw [hresult, hv, merged, bind_getPath?_plain, getPath?_map_cons]
      | some v =>
          rw [hv, merged_of_walked rfl] at hresult
          cases hmap : v.isMap with
          | false =>
              refine mergedAt_of_not_map hv hmap ?_
              rw [hresult, mergeValue_of_whole hmap, overlay_plain, Option.some_or,
                Option.bind_some]
          | true =>
              obtain ⟨es, rfl⟩ := exists_map_of_isMap hmap
              refine (ih (wellFormed_of_get? hentries.2 hv) (Path.join above key)).cons hv ?_
              rw [hresult, ← Entries.get?_plainEntries, mergeValue_none_map, Option.some_or,
                Option.bind_some, Entries.below_plainEntries]

/-- Applying extracted data without selectors leaves at the end of every way what the record and the
data have on the way decides. -/
theorem mergedAt_applyExtracted (policy : ArrayMerge) {record entries : Entries Value}
    (hentries : (Value.map entries).WellFormed) (way : List Text) :
    MergedAt policy (.map record) (.map entries)
      (applyExtracted policy none (.map record) (.map entries)) way :=
  mergedAt_mergeEntries hentries [] way

/-- A tuple and a list are combined, a map gives way to a number and takes its entries along, a
tuple that nothing was extracted for is kept as a list, and a new key follows the ones that were
there. -/
theorem mergedAt_applyExtracted_nested :
    let record := [(text "a", Value.map [(text "x", .null), (text "tags", .tuple [.int 1])]),
      (text "b", .map [(text "c", .null)]), (text "d", .tuple [])]
    let entries := [(text "b", Value.int 3),
      (text "a", .map [(text "y", .map []), (text "tags", .list [.int 2])])]
    let result := applyExtracted .append none (.map record) (.map entries)
    (Value.map entries).WellFormed ∧
      getPath? result [text "a", text "tags"] = some (.list [.int 1, .int 2]) ∧
      getPath? result [text "b", text "c"] = none ∧
      getPath? result [text "d"] = some (.list []) ∧
      ∃ merged, getPath? result [text "a"] = some (.map merged) ∧
        Entries.keys merged = [text "x", text "tags", text "y"] := by
  intro record entries result
  have hentries : (Value.map entries).WellFormed :=
    ⟨show [text "b", text "a"].Nodup by decide +kernel, trivial,
      ⟨show [text "y", text "tags"].Nodup by decide +kernel, ⟨List.nodup_nil, trivial⟩,
        ⟨trivial, trivial⟩, trivial⟩, trivial⟩
  have hat : ∀ way, MergedAt .append (.map record) (.map entries) result way :=
    fun way => mergedAt_applyExtracted .append hentries way
  refine ⟨hentries, (hat _).placed (.list [.int 2]) rfl rfl, ?_, ?_, ?_⟩
  · exact (hat _).cut [text "b"] (.int 3) (List.prefix_append _ [text "c"]) (by simp) rfl rfl
  · refine (hat [text "d"]).kept rfl fun keys v hprefix hv => ?_
    rcases List.prefix_cons_iff.mp hprefix with rfl | ⟨rest, rfl, hrest⟩
    · cases hv
      rfl
    · obtain rfl := List.prefix_nil.mp hrest
      have hnone : getPath? (.map entries) [text "d"] = none := rfl
      rw [hnone] at hv
      exact absurd hv (by simp)
  · obtain ⟨merged, hmerged, hkeys⟩ := (hat [text "a"]).keys _ _ rfl rfl
    refine ⟨merged, hmerged, hkeys.trans ?_⟩
    decide +kernel

end Merge

end InverseTemplate
