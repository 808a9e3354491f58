/-
# Added, modified and removed are disjoint

A difference files every place that it reports under one of added, modified and removed, and it does
so once, whatever the keys are.  But it names places by dotted paths, and a path tells its place
only as far as the keys do: `a.b` may be the key `b` in the map `a` or one key, and a map under the
empty key at the top puts its entries beside it.  So the categories are disjoint, and list no path
twice, exactly if no two of the places reported have one path (`Clash`), two changes apart, which
meet in one entry of `modified`.

If no key holds a dot and the top level has no empty key, splitting a path gives the keys back.
-/
import Mathlib.Data.List.Nodup
import InverseTemplate.Proofs.Difference.Written

namespace InverseTemplate

namespace Value

/-! ## All the keys -/

mutual

/-- The keys of a value that is a map and of the maps below it. -/
def allKeys : Value → List Text
  | .map entries => allKeysBelow entries
  | _ => []

/-- The keys of the entries of a map and of the maps below it. -/
def allKeysBelow : List (Text × Value) → List Text
  | [] => []
  | (key, v) :: rest => key :: (allKeys v ++ allKeysBelow rest)

end

theorem mem_allKeysBelow {entries : Entries Value} {key : Text} :
    key ∈ allKeysBelow entries ↔ ∃ entry ∈ entries, key = entry.1 ∨ key ∈ entry.2.allKeys := by
  induction entries with
  | nil => simp [allKeysBelow]
  | cons entry rest ih =>
      obtain ⟨k, v⟩ := entry
      simp only [allKeysBelow, List.mem_cons, List.mem_append, ih, exists_eq_or_imp, or_assoc]

theorem mem_allKeys_of_getPath? {v x : Value} {way : List Text} (h : getPath? v way = some x) :
    ∀ key ∈ way, key ∈ v.allKeys := by
  induction way generalizing v with
  | nil => exact List.forall_mem_nil _
  | cons key more ih =>
      obtain ⟨entries, rfl⟩ := exists_map_of_isMap (isMap_of_getPath?_cons h)
      rw [getPath?_map_cons] at h
      obtain ⟨w, hw, hmore⟩ := Option.bind_eq_some_iff.mp h
      have hentry := Entries.mem_of_get? hw
      rw [allKeys]
      exact List.forall_mem_cons.mpr ⟨mem_allKeysBelow.mpr ⟨_, hentry, .inl rfl⟩,
        fun k hk => mem_allKeysBelow.mpr ⟨_, hentry, .inr (ih hmore k hk)⟩⟩

theorem mem_keys_of_getPath?_cons {entries : Entries Value} {key : Text} {more : List Text}
    {x : Value} (h : getPath? (.map entries) (key :: more) = some x) :
    key ∈ Entries.keys entries := by
  rw [getPath?_map_cons] at h
  obtain ⟨w, hw, -⟩ := Option.bind_eq_some_iff.mp h
  exact Entries.mem_keys_of_get? hw

end Value

namespace Difference

open Value

/-- The paths of the leaves that were added. -/
def addedPaths (d : Difference) : List Text := (leavesBelow [] d.added).map Prod.fst

/-- No path is in two of the categories, and neither added nor removed lists one twice. -/
structure Disjoint (d : Difference) : Prop where
  added_modified : ∀ p ∈ d.addedPaths, p ∉ Entries.keys d.modified
  added_removed : ∀ p ∈ d.addedPaths, p ∉ d.removed
  modified_removed : ∀ p ∈ Entries.keys d.modified, p ∉ d.removed
  added_once : d.addedPaths.Nodup
  removed_once : d.removed.Nodup

/-- Something is reported of the place at the end of a way, and `p` is its path. -/
def Reported (old new : Value) (p : Text) (way : List Text) : Prop :=
  (∃ x, AddedAt old new [] p x way) ∨ (∃ change, ChangedAt old new [] (p, change) way) ∨
    RemovedAt old new [] p way

/-- Two reported places have one path, and not both of them were changed. -/
def Clash (old new : Value) (a b : List Text) : Prop :=
  a ≠ b ∧ ∃ p, Reported old new p a ∧ Reported old new p b ∧
    ¬ ((∃ change, ChangedAt old new [] (p, change) a) ∧
      ∃ change, ChangedAt old new [] (p, change) b)

section Verdicts

variable {old new x : Value} {p : Text} {way : List Text} {change : Text × Change}

theorem ChangedAt.not_addedAt (h : ChangedAt old new [] change way) :
    ¬ AddedAt old new [] p x way := by
  rintro ⟨-, -, -, hlost⟩
  obtain ⟨o, -, ho, -⟩ := h
  exact not_lost_of_isPrefix (List.prefix_refl way) ho hlost

theorem ChangedAt.not_removedAt (h : ChangedAt old new [] change way) :
    ¬ RemovedAt old new [] p way := by
  rintro ⟨-, hlost⟩
  obtain ⟨-, n, -, hn, -⟩ := h
  exact not_lost_of_isPrefix (List.prefix_refl way) hn hlost

theorem AddedAt.not_removedAt {q : Text} (h : AddedAt old new [] p x way) :
    ¬ RemovedAt old new [] q way := by
  rintro ⟨⟨y, hy, -⟩, -⟩
  obtain ⟨-, -, -, hlost⟩ := h
  exact not_lost_of_isPrefix (List.prefix_refl way) hy hlost

theorem Reported.eq_foldl (h : Reported old new p way) : p = way.foldl Path.join [] := by
  rcases h with ⟨x, n, ⟨-, -, hp⟩, -⟩ | ⟨change, o, n, -, -, -, -, heq⟩ | ⟨⟨x, -, -, hp⟩, -⟩
  · exact hp
  · exact (Prod.mk.inj heq).1
  · exact hp

theorem Reported.exists_getPath? {record entries : Entries Value}
    (h : Reported (.map record) (.map entries) p way) :
    way ≠ [] ∧ ((∃ x, getPath? (.map record) way = some x) ∨
      ∃ x, getPath? (.map entries) way = some x) := by
  rcases h with ⟨x, n, ⟨hn, -⟩, -, hlost⟩ | ⟨change, o, n, ho, hn, hmaps, -⟩ | ⟨⟨x, hx, -⟩, hlost⟩
  · exact ⟨fun hnil => not_lost_nil _ (hnil ▸ hlost), .inr ⟨n, hn⟩⟩
  · refine ⟨?_, .inl ⟨o, ho⟩⟩
    rintro rfl
    cases ho
    cases hn
    exact hmaps ⟨rfl, rfl⟩
  · exact ⟨fun hnil => not_lost_nil _ (hnil ▸ hlost), .inl ⟨x, hx⟩⟩

end Verdicts

/-! ## The categories, place by place -/

variable {record entries : Entries Value} {p : Text}

theorem mem_addedPaths_between (hentries : (Value.map entries).WellFormed) :
    p ∈ (between none (.map record) (.map entries)).addedPaths ↔
      ∃ x way, AddedAt (.map record) (.map entries) [] p x way := by
  simp only [between_map_map, addedPaths, ofFindings, List.mem_map, Prod.exists,
    mem_added_compareMaps hentries, exists_and_right, exists_eq_right]

theorem mem_modified_between (hentries : (Value.map entries).WellFormed) :
    p ∈ Entries.keys (between none (.map record) (.map entries)).modified ↔
      ∃ change way, ChangedAt (.map record) (.map entries) [] (p, change) way := by
  simp only [between_map_map, ofFindings, Entries.mem_keys_ofWrites, List.mem_map, Prod.exists,
    mem_modified_compareMaps hentries, exists_and_right, exists_eq_right]

theorem mem_removed_between (hrecord : (Value.map record).WellFormed)
    (hentries : (Value.map entries).WellFormed) :
    p ∈ (between none (.map record) (.map entries)).removed ↔
      ∃ way, RemovedAt (.map record) (.map entries) [] p way := by
  rw [between_map_map]
  exact mem_removed_compareMaps hrecord hentries

theorem nodup_addedPaths_between_iff (hrecord : (Value.map record).WellFormed)
    (hentries : (Value.map entries).WellFormed) :
    (between none (.map record) (.map entries)).addedPaths.Nodup ↔
      ∀ p x y a b, AddedAt (.map record) (.map entries) [] p x a →
        AddedAt (.map record) (.map entries) [] p y b → a = b := by
  have hpaths : (between none (.map record) (.map entries)).addedPaths =
      ((reportMaps record entries).added.map Prod.fst).map (·.foldl Path.join []) := by
    rw [between_map_map, addedPaths, ofFindings, (tells_compareMaps [] record entries).added,
      List.map_map, List.map_map]
    rfl
  have hmem := fun {way x} => @mem_added_reportMaps record entries hentries [] way x
  rw [hpaths, List.nodup_map_iff_inj_on (nodup_added_reportMaps hrecord hentries)]
  constructor
  · rintro hinj p x y a b ⟨n, hn, -, hlost⟩ ⟨m, hm, -, hlost'⟩
    obtain rfl := hn.2.2
    exact hinj a (List.mem_map_of_mem (hmem.mpr ⟨hn, hlost⟩)) b
      (List.mem_map_of_mem (hmem.mpr ⟨⟨hm.1, hm.2.1, rfl⟩, hlost'⟩)) hm.2.2
  · intro hone a ha b hb heq
    obtain ⟨⟨a, n⟩, hplace, rfl⟩ := List.mem_map.mp ha
    obtain ⟨⟨b, m⟩, hother, rfl⟩ := List.mem_map.mp hb
    obtain ⟨hn, hlost⟩ := hmem.mp hplace
    obtain ⟨hm, hlost'⟩ := hmem.mp hother
    exact hone _ _ _ a b ⟨n, hn, rfl, hlost⟩ ⟨m, ⟨hm.1, hm.2.1, heq⟩, rfl, hlost'⟩

theorem nodup_removed_between_iff (hrecord : (Value.map record).WellFormed)
    (hentries : (Value.map entries).WellFormed) :
    (between none (.map record) (.map entries)).removed.Nodup ↔
      ∀ p a b, RemovedAt (.map record) (.map entries) [] p a →
        RemovedAt (.map record) (.map entries) [] p b → a = b := by
  have hpaths : (between none (.map record) (.map entries)).removed =
      (reportMaps record entries).removed.map (·.foldl Path.join []) := by
    rw [between_map_map]
    exact (tells_compareMaps [] record entries).removed
  have hmem := fun {way} => @mem_removed_reportMaps record entries hrecord hentries [] way
  rw [hpaths, List.nodup_map_iff_inj_on (nodup_removed_reportMaps hrecord hentries)]
  constructor
  · intro hinj p a b ha hb
    obtain ⟨⟨x, hx, hleaf, rfl⟩, hlost⟩ := ha
    obtain ⟨⟨y, hy, hleaf', heq⟩, hlost'⟩ := hb
    exact hinj a (hmem.mpr ⟨⟨x, hx, hleaf, rfl⟩, hlost⟩) b
      (hmem.mpr ⟨⟨y, hy, hleaf', rfl⟩, hlost'⟩) heq
  · intro hone a ha b hb heq
    refine hone _ a b (hmem.mp ha) ?_
    rw [heq]
    exact hmem.mp hb

/-- The categories are disjoint exactly if no two of the places reported clash. -/
theorem disjoint_iff (hrecord : (Value.map record).WellFormed)
    (hentries : (Value.map entries).WellFormed) :
    (between none (.map record) (.map entries)).Disjoint ↔
      ∀ a b, ¬ Clash (.map record) (.map entries) a b := by
  constructor
  · rintro hd a b ⟨hne, p, ha, hb, hchanged⟩
    have haddedOnce := (nodup_addedPaths_between_iff hrecord hentries).mp hd.added_once
    have hremovedOnce := (nodup_removed_between_iff hrecord hentries).mp hd.removed_once
    have hadded : ∀ {x way}, AddedAt (.map record) (.map entries) [] p x way →
        p ∈ (between none (.map record) (.map entries)).addedPaths := fun h =>
      (mem_addedPaths_between hentries).mpr ⟨_, _, h⟩
    have hmodified : ∀ {change way}, ChangedAt (.map record) (.map entries) [] (p, change) way →
        p ∈ Entries.keys (between none (.map record) (.map entries)).modified := fun h =>
      (mem_modified_between hentries).mpr ⟨_, _, h⟩
    have hremoved : ∀ {way}, RemovedAt (.map record) (.map entries) [] p way →
        p ∈ (between none (.map record) (.map entries)).removed := fun h =>
      (mem_removed_between hrecord hentries).mpr ⟨_, h⟩
    rcases ha with ⟨x, ha⟩ | ⟨c, ha⟩ | ha <;> rcases hb with ⟨y, hb⟩ | ⟨c', hb⟩ | hb
    · exact hne (haddedOnce p x y a b ha hb)
    · exact hd.added_modified p (hadded ha) (hmodified hb)
    · exact hd.added_removed p (hadded ha) (hremoved hb)
    · exact hd.added_modified p (hadded hb) (hmodified ha)
    · exact hchanged ⟨⟨c, ha⟩, c', hb⟩
    · exact hd.modified_removed p (hmodified ha) (hremoved hb)
    · exact hd.added_removed p (hadded hb) (hremoved ha)
    · exact hd.modified_removed p (hmodified hb) (hremoved ha)
    · exact hne (hremovedOnce p a b ha hb)
  · intro hclash
    -- two places with one path are one place, or both were changed
    have hplace : ∀ {p a b}, Reported (.map record) (.map entries) p a →
        Reported (.map record) (.map entries) p b →
          (¬ ∃ change, ChangedAt (.map record) (.map entries) [] (p, change) a) → a = b :=
      fun {p a b} ha hb hnot => Classical.byContradiction fun hne =>
        hclash a b ⟨hne, p, ha, hb, fun h => hnot h.1⟩
    constructor
    · intro p hp hp'
      obtain ⟨x, a, ha⟩ := (mem_addedPaths_between hentries).mp hp
      obtain ⟨c, b, hb⟩ := (mem_modified_between hentries).mp hp'
      obtain rfl := hplace (.inl ⟨x, ha⟩) (.inr (.inl ⟨c, hb⟩)) fun ⟨_, h⟩ => h.not_addedAt ha
      exact hb.not_addedAt ha
    · intro p hp hp'
      obtain ⟨x, a, ha⟩ := (mem_addedPaths_between hentries).mp hp
      obtain ⟨b, hb⟩ := (mem_removed_between hrecord hentries).mp hp'
      obtain rfl := hplace (.inl ⟨x, ha⟩) (.inr (.inr hb)) fun ⟨_, h⟩ => h.not_addedAt ha
      exact ha.not_removedAt hb
    · intro p hp hp'
      obtain ⟨c, a, ha⟩ := (mem_modified_between hentries).mp hp
      obtain ⟨b, hb⟩ := (mem_removed_between hrecord hentries).mp hp'
      obtain rfl := hplace (.inr (.inr hb)) (.inr (.inl ⟨c, ha⟩)) fun ⟨_, h⟩ => h.not_removedAt hb
      exact ha.not_removedAt hb
    · refine (nodup_addedPaths_between_iff hrecord hentries).mpr fun p x y a b ha hb => ?_
      exact hplace (.inl ⟨x, ha⟩) (.inl ⟨y, hb⟩) fun ⟨_, h⟩ => h.not_addedAt ha
    · refine (nodup_removed_between_iff hrecord hentries).mpr fun p a b ha hb => ?_
      exact hplace (.inr (.inr ha)) (.inr (.inr hb)) fun ⟨_, h⟩ => h.not_removedAt ha

/-! ## Keys that paths can tell -/

/-- The path of a reported place tells the way there, if no key has a dot and none at the top is
empty. -/
theorem Reported.split_eq {way : List Text}
    (h : Reported (.map record) (.map entries) p way)
    (hdots : ∀ key ∈ (Value.map record).allKeys ++ (Value.map entries).allKeys, '.' ∉ key)
    (htop : [] ∉ Entries.keys record ++ Entries.keys entries) : Path.split p = way := by
  obtain ⟨hne, hget⟩ := h.exists_getPath?
  obtain ⟨key, more, rfl⟩ := List.exists_cons_of_ne_nil hne
  have hkey : key ∈ Entries.keys record ++ Entries.keys entries := by
    rcases hget with ⟨x, hx⟩ | ⟨x, hx⟩
    · exact List.mem_append_left _ (mem_keys_of_getPath?_cons hx)
    · exact List.mem_append_right _ (mem_keys_of_getPath?_cons hx)
  rw [h.eq_foldl]
  refine Path.split_foldl_join_cons (fun hnil => htop (hnil ▸ hkey)) fun k hk => hdots k ?_
  rcases hget with ⟨x, hx⟩ | ⟨x, hx⟩
  · exact List.mem_append_left _ (mem_allKeys_of_getPath? hx k hk)
  · exact List.mem_append_right _ (mem_allKeys_of_getPath? hx k hk)

/-- Added, modified and removed are disjoint exactly if no two of the places reported clash.  If no
key has a dot and none at the top is empty, none do. -/
theorem disjoint_between (hrecord : (Value.map record).WellFormed)
    (hentries : (Value.map entries).WellFormed) :
    ((between none (.map record) (.map entries)).Disjoint ↔
        ∀ a b, ¬ Clash (.map record) (.map entries) a b) ∧
      ((∀ key ∈ (Value.map record).allKeys ++ (Value.map entries).allKeys, '.' ∉ key) →
        [] ∉ Entries.keys record ++ Entries.keys entries →
          (between none (.map record) (.map entries)).Disjoint) := by
  refine ⟨disjoint_iff hrecord hentries, fun hdots htop => ?_⟩
  refine (disjoint_iff hrecord hentries).mpr fun a b hclash => ?_
  obtain ⟨hne, p, ha, hb, -⟩ := hclash
  exact hne ((ha.split_eq hdots htop).symm.trans (hb.split_eq hdots htop))

/-- One path in each category, the removed one ending in the empty key of a nested map. -/
theorem disjoint_between_nested :
    let record := [(text "a", Value.map [([], .int 1), (text "b", .int 2)])]
    let entries := [(text "a", Value.map [(text "b", .int 3), (text "c", .int 4)])]
    let d := between none (.map record) (.map entries)
    (Value.map record).WellFormed ∧ (Value.map entries).WellFormed ∧
      d.addedPaths = [text "a.c"] ∧ Entries.keys d.modified = [text "a.b"] ∧
      d.removed = [text "a."] ∧ d.Disjoint := by
  intro record entries d
  have hrecord : (Value.map record).WellFormed :=
    ⟨List.pairwise_singleton _ _, ⟨show [[], text "b"].Nodup by decide +kernel, trivial, trivial,
      trivial⟩, trivial⟩
  have hentries : (Value.map entries).WellFormed :=
    ⟨List.pairwise_singleton _ _, ⟨show [text "b", text "c"].Nodup by decide +kernel, trivial,
      trivial, trivial⟩, trivial⟩
  exact ⟨hrecord, hentries, by decide +kernel, by decide +kernel, by decide +kernel,
    (disjoint_between hrecord hentries).2 (by decide +kernel) (by decide +kernel)⟩

/-- A key with a dot takes the path of a nested key: of two places removed the path is listed twice,
and of one added and one removed it is in both categories. -/
theorem not_disjoint_between_dotted_key :
    let nested := Value.map [(text "b", .int 1)]
    let both := [(text "a", nested), (text "a.b", .int 2)]
    (Value.map both).WellFormed ∧
      (between none (.map both) (.map [])).removed = [text "a.b", text "a.b"] ∧
      ¬ (between none (.map both) (.map [])).Disjoint ∧
      (between none (.map [(text "a", nested)]) (.map [(text "a.b", .int 2)])).addedPaths =
        [text "a.b"] ∧
      (between none (.map [(text "a", nested)]) (.map [(text "a.b", .int 2)])).removed =
        [text "a.b"] ∧
      ¬ (between none (.map [(text "a", nested)]) (.map [(text "a.b", .int 2)])).Disjoint := by
  intro nested both
  have hboth : (Value.map both).WellFormed :=
    ⟨show [text "a", text "a.b"].Nodup by decide +kernel, ⟨List.pairwise_singleton _ _, trivial,
      trivial⟩, trivial, trivial⟩
  have htwice : (between none (.map both) (.map [])).removed = [text "a.b", text "a.b"] := by
    decide +kernel
  have hadded : (between none (.map [(text "a", nested)])
      (.map [(text "a.b", .int 2)])).addedPaths = [text "a.b"] := by decide +kernel
  have hremoved : (between none (.map [(text "a", nested)])
      (.map [(text "a.b", .int 2)])).removed = [text "a.b"] := by decide +kernel
  refine ⟨hboth, htwice, fun h => ?_, hadded, hremoved, fun h => ?_⟩
  · have hnodup := h.removed_once
    rw [htwice] at hnodup
    simp at hnodup
  · refine h.added_removed (text "a.b") ?_ ?_
    · rw [hadded]
      exact List.mem_singleton.mpr rfl
    · rw [hremoved]
      exact List.mem_singleton.mpr rfl

end Difference

end InverseTemplate
