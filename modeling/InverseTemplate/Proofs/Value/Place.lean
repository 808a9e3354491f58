/-
# Places in a record

A place is named twice: by the keys on the way to it, and by the dotted path that joins them.  The
comparison and the merge hand paths down and ask selectors about them; what they do is best said of
ways.  Between keys that are names, neither empty nor with a dot in them, the two are one thing:
splitting a joined way gives the way back, so different ways have different paths, and a selector
covers a place exactly if its own keys begin the way there.

`mem_leavesAt_iff` reads the listing of leaves in these terms, and in a map of names no path is
listed twice (`nodup_leavesBelow`).
-/
import InverseTemplate.Proofs.Template.Paths
import InverseTemplate.Proofs.Text.Split
import InverseTemplate.Proofs.Value.Nested
import InverseTemplate.Proofs.Value.Written

namespace InverseTemplate

namespace Path

/-- A key that a path can name: it is not empty, and there is no dot in it. -/
def IsName (key : Text) : Prop := key ≠ [] ∧ '.' ∉ key

instance : DecidablePred IsName := fun key =>
  inferInstanceAs (Decidable (key ≠ [] ∧ '.' ∉ key))

theorem foldl_join_concat (above : Text) (keys : List Text) (key : Text) :
    (keys ++ [key]).foldl join above = join (keys.foldl join above) key := by
  rw [List.foldl_append, List.foldl_cons, List.foldl_nil]

theorem forall_isName_concat {done : List Text} (hdone : ∀ key ∈ done, IsName key) {key : Text}
    (hkey : IsName key) : ∀ k ∈ done ++ [key], IsName k :=
  List.forall_mem_append.mpr ⟨hdone, List.forall_mem_singleton.mpr hkey⟩

/-- Splitting the path of a way gives the way, if there is no dot in its keys and the first one is
not empty. -/
theorem split_foldl_join_cons {key : Text} {more : List Text} (hkey : key ≠ [])
    (h : ∀ k ∈ key :: more, '.' ∉ k) : split ((key :: more).foldl join []) = key :: more := by
  rw [List.foldl_cons, join, if_pos rfl, foldl_join hkey]
  exact List.splitOn_intercalate '.' h (by simp)

theorem split_foldl_join {keys : List Text} (hne : keys ≠ []) (h : ∀ key ∈ keys, IsName key) :
    split (keys.foldl join []) = keys := by
  obtain ⟨key, more, rfl⟩ := List.exists_cons_of_ne_nil hne
  exact split_foldl_join_cons (h key (List.mem_cons_self ..)).1 fun k hk => (h k hk).2

theorem nodup_map_foldl_join {ways : List (List Text)} (h : ways.Nodup)
    (hsplit : ∀ way ∈ ways, split (way.foldl join []) = way) :
    (ways.map (·.foldl join [])).Nodup := by
  refine List.pairwise_map.mpr (h.imp_of_mem fun {a b} ha hb hne heq => hne ?_)
  rw [← hsplit a ha, ← hsplit b hb, heq]

theorem split_prefix_iff {p q : Text} : split p <+: split q ↔ q = p ∨ isBelow q p = true := by
  constructor
  · intro h
    rcases eq_or_isBelow_of_split_prefix h with heq | hbelow
    · exact .inl heq.symm
    · exact .inr hbelow
  · rintro (rfl | h)
    · exact List.prefix_refl _
    · obtain ⟨more, rfl⟩ := List.isPrefixOf_iff_prefix.mp h
      refine ⟨split more, ?_⟩
      rw [split, split, split, List.append_assoc]
      exact (List.splitOn_append_cons_self p more).symm

/-- Two paths lead apart if they differ and neither is below the other. -/
theorem apart_split_iff {p q : Text} :
    Apart (split p) (split q) ↔ p ≠ q ∧ isBelow p q = false ∧ isBelow q p = false := by
  simp only [Apart, split_prefix_iff, not_or, Bool.not_eq_true]
  constructor
  · rintro ⟨⟨-, hq⟩, hne, hp⟩
    exact ⟨hne, hp, hq⟩
  · rintro ⟨hne, hp, hq⟩
    exact ⟨⟨hne.symm, hq⟩, hne, hp⟩

/-! ## Selectors -/

theorem covered_none (path : Text) : covered path none = true := rfl

theorem covered_some_iff {path : Text} {selectors : List Text} :
    covered path (some selectors) = true ↔
      ∃ selector ∈ selectors, split selector <+: split path := by
  simp only [covered, List.any_eq_true, Bool.or_eq_true, decide_eq_true_eq, split_prefix_iff]

theorem walked_some_iff {path : Text} {selectors : List Text} :
    walked path (some selectors) = true ↔
      ∃ selector ∈ selectors, split selector <+: split path ∨ split path <+: split selector := by
  simp only [walked, selected, List.any_eq_true, Bool.or_eq_true, decide_eq_true_eq,
    split_prefix_iff]
  refine exists_congr fun selector => and_congr_right fun _ => ?_
  rw [or_assoc, or_or_or_comm, eq_comm (a := selector), or_self]

/-- Selectors decide on paths as texts what their keys say: a path is covered if the keys of a
selector begin its own, and selected if either begin the other. -/
theorem covered_and_selected_iff_prefix (path : Text) (selectors : List Text) :
    (covered path (some selectors) = true ↔
      ∃ selector ∈ selectors, split selector <+: split path) ∧
    (selected path selectors = true ↔
      ∃ selector ∈ selectors, split selector <+: split path ∨ split path <+: split selector) :=
  ⟨covered_some_iff, walked_some_iff⟩

/-- Dots at the ends make empty keys, and a sibling that begins with the same characters is no more
selected than any other. -/
example :
    covered (text "a..b") (some [text "a."]) = true ∧
    covered (text "a.b") (some [text "a."]) = false ∧
    selected (text "a") [text "a."] = true ∧
    selected (text "ab.c") [text "a"] = false ∧
    selected [] [text ".a"] = true := by
  decide +kernel

end Path

namespace Value

/-! ## Maps whose keys are names -/

mutual

/-- Every key of a map that can be reached through maps is a name. -/
def Named : Value → Prop
  | .map entries => NamedEntries entries
  | _ => True

/-- The keys and the keys of the maps below them are names. -/
def NamedEntries : List (Text × Value) → Prop
  | [] => True
  | (key, v) :: rest => Path.IsName key ∧ Named v ∧ NamedEntries rest

end

theorem namedEntries_iff {entries : Entries Value} :
    NamedEntries entries ↔ ∀ entry ∈ entries, Path.IsName entry.1 ∧ entry.2.Named := by
  induction entries with
  | nil => simp [NamedEntries]
  | cons entry rest ih =>
      obtain ⟨key, v⟩ := entry
      rw [NamedEntries, ih, List.forall_mem_cons, and_assoc]

theorem Named.of_get? {entries : Entries Value} (h : (Value.map entries).Named) {key : Text}
    {v : Value} (hget : Entries.get? entries key = some v) : Path.IsName key ∧ v.Named := by
  rw [Named] at h
  exact namedEntries_iff.mp h (key, v) (Entries.mem_of_get? hget)

/-! ## Ways -/

theorem getPath?_map_cons (entries : Entries Value) (key : Text) (more : List Text) :
    getPath? (.map entries) (key :: more) =
      (Entries.get? entries key).bind fun v => getPath? v more := by
  rw [getPath?]
  cases Entries.get? entries key <;> rfl

theorem getPath?_append (v : Value) (keys more : List Text) :
    getPath? v (keys ++ more) = (getPath? v keys).bind fun w => getPath? w more := by
  induction keys generalizing v with
  | nil => rfl
  | cons key rest ih =>
      cases v with
      | map entries =>
          rw [List.cons_append, getPath?_map_cons, getPath?_map_cons]
          cases Entries.get? entries key with
          | none => rfl
          | some w => exact ih w
      | _ => rfl

theorem getPath?_plain (v : Value) (keys : List Text) :
    getPath? v.plain keys = (getPath? v keys).map plain := by
  induction keys generalizing v with
  | nil => rfl
  | cons key more ih =>
      cases v with
      | map entries =>
          rw [plain, getPath?_map_cons, getPath?_map_cons, Entries.get?_plainEntries]
          cases Entries.get? entries key with
          | none => rfl
          | some w => exact ih w
      | _ => rfl

theorem bind_getPath?_plain (current : Option Value) (keys : List Text) :
    ((current.map plain).bind fun v => getPath? v keys) =
      (current.bind fun v => getPath? v keys).map plain := by
  cases current with
  | none => rfl
  | some v => exact getPath?_plain v keys

theorem wellFormed_of_getPath? {v x : Value} (hv : v.WellFormed) {keys : List Text}
    (h : getPath? v keys = some x) : x.WellFormed := by
  induction keys generalizing v with
  | nil =>
      cases h
      exact hv
  | cons key more ih =>
      cases v with
      | map entries =>
          rw [getPath?_map_cons] at h
          obtain ⟨w, hw, hmore⟩ := Option.bind_eq_some_iff.mp h
          exact ih (wellFormed_of_get? hv.2 hw) hmore
      | _ => simp [getPath?] at h

theorem Named.isName_of_getPath? {v x : Value} (hv : v.Named) {keys : List Text}
    (h : getPath? v keys = some x) : ∀ key ∈ keys, Path.IsName key := by
  induction keys generalizing v with
  | nil => simp
  | cons key more ih =>
      cases v with
      | map entries =>
          rw [getPath?_map_cons] at h
          obtain ⟨w, hw, hmore⟩ := Option.bind_eq_some_iff.mp h
          obtain ⟨hname, hnamed⟩ := hv.of_get? hw
          exact List.forall_mem_cons.mpr ⟨hname, ih hnamed hmore⟩
      | _ => simp [getPath?] at h

theorem isMap_of_getPath?_cons {v x : Value} {key : Text} {more : List Text}
    (h : getPath? v (key :: more) = some x) : v.isMap = true := by
  cases v with
  | map entries => rfl
  | _ => simp [getPath?] at h

theorem exists_map_of_isPrefix {v x : Value} {keys way : List Text} (hbegin : keys <+: way)
    (hne : keys ≠ way) (h : getPath? v way = some x) :
    ∃ entries, getPath? v keys = some (.map entries) := by
  obtain ⟨more, rfl⟩ := hbegin
  rw [getPath?_append] at h
  obtain ⟨w, hw, hmore⟩ := Option.bind_eq_some_iff.mp h
  cases more with
  | nil => exact absurd (List.append_nil keys).symm hne
  | cons key more =>
      obtain ⟨entries, rfl⟩ := exists_map_of_isMap (isMap_of_getPath?_cons hmore)
      exact ⟨entries, hw⟩

theorem Named.split_foldl_join {v x : Value} (hv : v.Named) {keys : List Text} (hne : keys ≠ [])
    (h : getPath? v keys = some x) : Path.split (keys.foldl Path.join []) = keys :=
  Path.split_foldl_join hne (hv.isName_of_getPath? h)

/-! ## Leaves -/

/-- The value is listed itself and not by what is below it. -/
def IsLeaf (v : Value) : Prop := ∀ entries, v = .map entries → entries = []

theorem isLeaf_of_not_map {v : Value} (h : v.isMap = false) : v.IsLeaf := by
  rintro entries rfl
  exact absurd h (by simp [isMap, entries?])

theorem leavesAt_of_isLeaf {v : Value} (h : v.IsLeaf) (path : Text) :
    v.leavesAt path = [(path, v)] := by
  cases v with
  | map entries =>
      cases h entries rfl
      rfl
  | _ => rfl

theorem getPath?_cons_of_isLeaf {v : Value} (h : v.IsLeaf) (key : Text) (more : List Text) :
    getPath? v (key :: more) = none := by
  cases v with
  | map entries =>
      cases h entries rfl
      rfl
  | _ => rfl

theorem eq_of_isPrefix_of_isLeaf {v x y : Value} {keys way : List Text} (hbegin : keys <+: way)
    (hx : getPath? v keys = some x) (hleaf : x.IsLeaf) (hy : getPath? v way = some y) :
    keys = way := by
  obtain ⟨more, rfl⟩ := hbegin
  cases more with
  | nil => rw [List.append_nil]
  | cons key more =>
      rw [getPath?_append, hx, Option.bind_some, getPath?_cons_of_isLeaf hleaf] at hy
      exact absurd hy (by simp)

theorem leavesAt_map (path : Text) {entries : Entries Value} (hne : entries ≠ []) :
    (Value.map entries).leavesAt path = leavesBelow path entries := by
  cases entries with
  | nil => exact absurd rfl hne
  | cons entry rest => rw [leavesAt]

theorem leavesBelow_eq_flatMap (path : Text) (entries : Entries Value) :
    leavesBelow path entries =
      entries.flatMap fun entry => entry.2.leavesAt (Path.join path entry.1) := by
  induction entries with
  | nil => rfl
  | cons entry rest ih =>
      obtain ⟨key, v⟩ := entry
      rw [leavesBelow, ih, List.flatMap_cons]

mutual

/-- The leaves of a value with the ways to them, in the order in which they are listed. -/
def leafPlaces : Value → List (List Text × Value)
  | .map (entry :: entries) => leafPlacesBelow (entry :: entries)
  | v => [([], v)]

/-- The leaves of the entries of a map with the ways to them. -/
def leafPlacesBelow : List (Text × Value) → List (List Text × Value)
  | [] => []
  | (key, v) :: rest =>
      (leafPlaces v).map (fun place => (key :: place.1, place.2)) ++ leafPlacesBelow rest

end

theorem leafPlaces_of_isLeaf {v : Value} (h : v.IsLeaf) : v.leafPlaces = [([], v)] := by
  cases v with
  | map entries =>
      cases h entries rfl
      rfl
  | _ => rfl

theorem leafPlaces_map {entries : Entries Value} (hne : entries ≠ []) :
    (Value.map entries).leafPlaces = leafPlacesBelow entries := by
  cases entries with
  | nil => exact absurd rfl hne
  | cons entry rest => rw [leafPlaces]

theorem leafPlacesBelow_eq_flatMap (entries : Entries Value) :
    leafPlacesBelow entries = entries.flatMap fun entry =>
      entry.2.leafPlaces.map fun place => (entry.1 :: place.1, place.2) := by
  induction entries with
  | nil => rfl
  | cons entry rest ih =>
      obtain ⟨key, v⟩ := entry
      rw [leafPlacesBelow, ih, List.flatMap_cons]

theorem cons_mem_leafPlacesBelow {entries : Entries Value} {key : Text} {v : Value}
    (hentry : (key, v) ∈ entries) {place : List Text × Value} (h : place ∈ v.leafPlaces) :
    (key :: place.1, place.2) ∈ leafPlacesBelow entries := by
  rw [leafPlacesBelow_eq_flatMap]
  exact List.mem_flatMap.mpr ⟨(key, v), hentry, List.mem_map.mpr ⟨place, h, rfl⟩⟩

theorem leafPlaces_ne_nil (v : Value) : v.leafPlaces ≠ [] := by
  induction v using mapInduction with
  | whole v hwhole => simp [leafPlaces_of_isLeaf (isLeaf_of_not_map hwhole)]
  | map entries ih =>
      cases entries with
      | nil => simp [leafPlaces_of_isLeaf (v := .map []) fun _ h => (Value.map.inj h).symm]
      | cons entry rest =>
          have hfirst := ih entry (List.mem_cons_self ..)
          simp [leafPlaces, leafPlacesBelow, hfirst]

theorem leavesBelow_eq_map_of_forall {entries : Entries Value} (path : Text)
    (h : ∀ entry ∈ entries, entry.2.leavesAt (Path.join path entry.1) =
      entry.2.leafPlaces.map fun place =>
        (place.1.foldl Path.join (Path.join path entry.1), place.2)) :
    leavesBelow path entries =
      (leafPlacesBelow entries).map fun place => (place.1.foldl Path.join path, place.2) := by
  induction entries with
  | nil => rfl
  | cons entry rest ih =>
      obtain ⟨key, v⟩ := entry
      obtain ⟨hfirst, hrest⟩ := List.forall_mem_cons.mp h
      rw [leavesBelow, leafPlacesBelow, List.map_append, List.map_map, ih hrest, hfirst]
      rfl

theorem leavesAt_eq_map (v : Value) (path : Text) :
    v.leavesAt path =
      v.leafPlaces.map fun place => (place.1.foldl Path.join path, place.2) := by
  induction v using mapInduction generalizing path with
  | whole v hwhole =>
      rw [leavesAt_of_isLeaf (isLeaf_of_not_map hwhole),
        leafPlaces_of_isLeaf (isLeaf_of_not_map hwhole)]
      rfl
  | map entries ih =>
      by_cases hne : entries = []
      · subst hne
        rfl
      · rw [leavesAt_map path hne, leafPlaces_map hne]
        exact leavesBelow_eq_map_of_forall path fun entry hentry => ih entry hentry _

theorem leavesAt_ne_nil (v : Value) (path : Text) : v.leavesAt path ≠ [] := by
  rw [leavesAt_eq_map]
  exact fun h => leafPlaces_ne_nil v (List.map_eq_nil_iff.mp h)

theorem leavesBelow_eq_map (path : Text) (entries : Entries Value) :
    leavesBelow path entries =
      (leafPlacesBelow entries).map fun place => (place.1.foldl Path.join path, place.2) :=
  leavesBelow_eq_map_of_forall path fun entry _ => leavesAt_eq_map entry.2 _

theorem mem_leafPlacesBelow_of_forall {entries : Entries Value} (hnodup : Entries.NodupKeys entries)
    {x : Value} (h : ∀ entry ∈ entries, ∀ keys,
      (keys, x) ∈ entry.2.leafPlaces ↔ getPath? entry.2 keys = some x ∧ x.IsLeaf)
    {keys : List Text} :
    (keys, x) ∈ leafPlacesBelow entries ↔
      keys ≠ [] ∧ getPath? (.map entries) keys = some x ∧ x.IsLeaf := by
  rw [leafPlacesBelow_eq_flatMap, List.mem_flatMap]
  constructor
  · rintro ⟨entry, hentry, hmem⟩
    obtain ⟨⟨more, x⟩, hplace, heq⟩ := List.mem_map.mp hmem
    cases heq
    obtain ⟨hget, hleaf⟩ := (h entry hentry more).mp hplace
    refine ⟨by simp, ?_, hleaf⟩
    rw [getPath?_map_cons, Entries.get?_of_mem hnodup hentry]
    exact hget
  · rintro ⟨hne, hget, hleaf⟩
    obtain ⟨key, more, rfl⟩ := List.exists_cons_of_ne_nil hne
    rw [getPath?_map_cons] at hget
    obtain ⟨w, hw, hmore⟩ := Option.bind_eq_some_iff.mp hget
    have hentry := Entries.mem_of_get? hw
    exact ⟨(key, w), hentry, List.mem_map.mpr
      ⟨(more, x), (h (key, w) hentry more).mpr ⟨hmore, hleaf⟩, rfl⟩⟩

theorem mem_leafPlaces_of_isLeaf {v : Value} (h : v.IsLeaf) {keys : List Text} {x : Value} :
    (keys, x) ∈ v.leafPlaces ↔ getPath? v keys = some x ∧ x.IsLeaf := by
  rw [leafPlaces_of_isLeaf h, List.mem_singleton]
  cases keys with
  | nil =>
      constructor
      · intro heq
        cases heq
        exact ⟨rfl, h⟩
      · rintro ⟨heq, -⟩
        cases heq
        rfl
  | cons key more => simp [getPath?_cons_of_isLeaf h]

theorem mem_leafPlaces_iff {v : Value} (hv : v.WellFormed) {keys : List Text} {x : Value} :
    (keys, x) ∈ v.leafPlaces ↔ getPath? v keys = some x ∧ x.IsLeaf := by
  induction v using mapInduction generalizing keys with
  | whole v hwhole => exact mem_leafPlaces_of_isLeaf (isLeaf_of_not_map hwhole)
  | map entries ih =>
      by_cases hne : entries = []
      · exact mem_leafPlaces_of_isLeaf fun es hes => by rwa [← Value.map.inj hes]
      · rw [leafPlaces_map hne, mem_leafPlacesBelow_of_forall hv.1
          fun entry hentry keys => ih entry hentry (wellFormed_of_mem hv.2 hentry)]
        refine and_iff_right_of_imp ?_
        rintro ⟨hget, hleaf⟩ rfl
        cases hget
        exact hne (hleaf entries rfl)

theorem mem_leafPlacesBelow_iff {entries : Entries Value} (h : (Value.map entries).WellFormed)
    {keys : List Text} {x : Value} :
    (keys, x) ∈ leafPlacesBelow entries ↔
      keys ≠ [] ∧ getPath? (.map entries) keys = some x ∧ x.IsLeaf :=
  mem_leafPlacesBelow_of_forall h.1 fun _ hentry _ =>
    mem_leafPlaces_iff (wellFormed_of_mem h.2 hentry)

theorem nodup_flatMap_cons {α : Type} {m : Entries α} (hm : Entries.NodupKeys m)
    {ways : Text × α → List (List Text)} (h : ∀ entry ∈ m, (ways entry).Nodup) :
    (m.flatMap fun entry => (ways entry).map (entry.1 :: ·)).Nodup := by
  refine List.pairwise_flatMap.mpr ⟨fun entry hentry => ?_, ?_⟩
  · exact List.pairwise_map.mpr ((h entry hentry).imp fun hne heq => hne (List.cons.inj heq).2)
  · have hkeys : m.Pairwise fun a b => a.1 ≠ b.1 := List.pairwise_map.mp hm
    refine hkeys.imp ?_
    rintro a b hne p hp q hq rfl
    obtain ⟨way, -, rfl⟩ := List.mem_map.mp hp
    obtain ⟨other, -, heq⟩ := List.mem_map.mp hq
    exact hne (List.cons.inj heq).1.symm

theorem map_fst_leafPlacesBelow (entries : Entries Value) :
    (leafPlacesBelow entries).map Prod.fst = entries.flatMap fun entry =>
      (entry.2.leafPlaces.map Prod.fst).map (entry.1 :: ·) := by
  simp only [leafPlacesBelow_eq_flatMap, List.map_flatMap, List.map_map, Function.comp_def]

theorem nodup_leafPlaces {v : Value} (hv : v.WellFormed) :
    (v.leafPlaces.map Prod.fst).Nodup := by
  induction v using mapInduction with
  | whole v hwhole =>
      rw [leafPlaces_of_isLeaf (isLeaf_of_not_map hwhole)]
      exact List.pairwise_singleton _ _
  | map entries ih =>
      by_cases hne : entries = []
      · subst hne
        exact List.pairwise_singleton _ _
      · rw [leafPlaces_map hne, map_fst_leafPlacesBelow]
        exact nodup_flatMap_cons hv.1 fun entry hentry =>
          ih entry hentry (wellFormed_of_mem hv.2 hentry)

theorem nodup_leafPlacesBelow {entries : Entries Value} (h : (Value.map entries).WellFormed) :
    ((leafPlacesBelow entries).map Prod.fst).Nodup := by
  rw [map_fst_leafPlacesBelow]
  exact nodup_flatMap_cons h.1 fun entry hentry =>
    nodup_leafPlaces (wellFormed_of_mem h.2 hentry)

theorem nodup_leavesBelow {entries : Entries Value} (h : (Value.map entries).WellFormed)
    (hnamed : (Value.map entries).Named) : ((leavesBelow [] entries).map Prod.fst).Nodup := by
  have hpaths : (leavesBelow [] entries).map Prod.fst =
      ((leafPlacesBelow entries).map Prod.fst).map (·.foldl Path.join []) := by
    rw [leavesBelow_eq_map, List.map_map, List.map_map]
    rfl
  rw [hpaths]
  refine Path.nodup_map_foldl_join (nodup_leafPlacesBelow h) fun way hway => ?_
  obtain ⟨⟨way, x⟩, hplace, rfl⟩ := List.mem_map.mp hway
  obtain ⟨hne, hget, -⟩ := (mem_leafPlacesBelow_iff h).mp hplace
  exact hnamed.split_foldl_join hne hget

/-- A place where something stands that is listed itself. -/
def LeafAt (v : Value) (path p : Text) (x : Value) (keys : List Text) : Prop :=
  getPath? v keys = some x ∧ x.IsLeaf ∧ p = keys.foldl Path.join path

/-- The leaves of a value are the ways to what is listed itself. -/
theorem mem_leavesAt_iff {v : Value} (hv : v.WellFormed) {path p : Text} {x : Value} :
    (p, x) ∈ v.leavesAt path ↔ ∃ keys, LeafAt v path p x keys := by
  rw [leavesAt_eq_map, List.mem_map]
  constructor
  · rintro ⟨⟨keys, y⟩, hplace, heq⟩
    cases heq
    obtain ⟨hget, hleaf⟩ := (mem_leafPlaces_iff hv).mp hplace
    exact ⟨keys, hget, hleaf, rfl⟩
  · rintro ⟨keys, hget, hleaf, rfl⟩
    exact ⟨(keys, x), (mem_leafPlaces_iff hv).mpr ⟨hget, hleaf⟩, rfl⟩

theorem mem_leavesBelow_iff {entries : Entries Value} (h : (Value.map entries).WellFormed)
    {path p : Text} {x : Value} :
    (p, x) ∈ leavesBelow path entries ↔
      ∃ keys, keys ≠ [] ∧ LeafAt (.map entries) path p x keys := by
  rw [leavesBelow_eq_map, List.mem_map]
  constructor
  · rintro ⟨⟨keys, y⟩, hplace, heq⟩
    cases heq
    obtain ⟨hne, hget, hleaf⟩ := (mem_leafPlacesBelow_iff h).mp hplace
    exact ⟨keys, hne, hget, hleaf, rfl⟩
  · rintro ⟨keys, hne, hget, hleaf, rfl⟩
    exact ⟨(keys, x), (mem_leafPlacesBelow_iff h).mpr ⟨hne, hget, hleaf⟩, rfl⟩

end Value

end InverseTemplate
