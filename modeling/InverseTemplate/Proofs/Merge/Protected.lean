/-
# What selectors protect

A merge under selectors is not to touch a place that lies neither at nor below a selector nor above
one.  What endangers such a place is a place above it that also lies above a selector: the merge
walks there, and if the extracted data has anything else than a map at it, that value takes the
place of the record's whole branch (`Severed`).  That is the only danger.  A place that has
something keeps it exactly if the way to it is not severed, whatever the array policy, and a place
that has nothing gets nothing.

The induction goes down the way, key by key, with the record's and the extracted map at hand, until
one of the two has no map or the merge stops walking.
-/
import InverseTemplate.Proofs.Merge.Places

namespace InverseTemplate

/-- On the way to a place, above a selector, the extracted data has something else than a map.  The
way and the selectors go on from the keys `done`. -/
def Severed (selectors : List Text) (done : List Text) (extracted : Value) (way : List Text) :
    Prop :=
  ∃ p v, p <+: way ∧ extracted.getPath? p = some v ∧ v.isMap = false ∧
    ∃ selector ∈ selectors, done ++ p <+: Path.split selector

theorem not_severed_nil {selectors done : List Text} (entries : Entries Value) :
    ¬ Severed selectors done (.map entries) [] := by
  rintro ⟨p, v, hp, hget, hmap, -⟩
  obtain rfl := List.prefix_nil.mp hp
  cases hget
  exact absurd hmap (by simp [Value.isMap, Value.entries?])

theorem severed_cons {selectors done : List Text} {entries : Entries Value} {key : Text}
    {more : List Text} :
    Severed selectors done (.map entries) (key :: more) ↔
      ∃ v ∈ Entries.get? entries key, Severed selectors (done ++ [key]) v more := by
  constructor
  · rintro ⟨p, v, hp, hget, hmap, selector, hmem, hprefix⟩
    cases p with
    | nil =>
        cases hget
        exact absurd hmap (by simp [Value.isMap, Value.entries?])
    | cons k p =>
        obtain ⟨rfl, hmore⟩ := List.cons_prefix_cons.mp hp
        rw [Value.getPath?_map_cons] at hget
        obtain ⟨w, hw, hget⟩ := Option.bind_eq_some_iff.mp hget
        refine ⟨w, hw, p, v, hmore, hget, hmap, selector, hmem, ?_⟩
        rwa [List.append_assoc, List.singleton_append]
  · rintro ⟨w, hw, p, v, hp, hget, hmap, selector, hmem, hprefix⟩
    refine ⟨key :: p, v, List.cons_prefix_cons.mpr ⟨rfl, hp⟩, ?_, hmap, selector, hmem, ?_⟩
    · rw [Value.getPath?_map_cons, hw]
      exact hget
    · rwa [List.append_assoc, List.singleton_append] at hprefix

theorem severed_of_not_map {selectors done : List Text} {v : Value} (hmap : v.isMap = false)
    (hselector : ∃ selector ∈ selectors, done <+: Path.split selector) (way : List Text) :
    Severed selectors done v way := by
  obtain ⟨selector, hmem, hprefix⟩ := hselector
  exact ⟨[], v, List.nil_prefix, rfl, hmap, selector, hmem, by rwa [List.append_nil]⟩

theorem Severed.exists_prefix {selectors done : List Text} {v : Value} {way : List Text}
    (h : Severed selectors done v way) : ∃ selector ∈ selectors, done <+: Path.split selector := by
  obtain ⟨p, -, -, -, -, selector, hmem, hprefix⟩ := h
  exact ⟨selector, hmem, (List.prefix_append done p).trans hprefix⟩

namespace Value

theorem agree_map_plain {current : Option Value} (h : ∀ v ∈ current, v.WellFormed) :
    Agree current (current.map plain) := by
  cases current with
  | none => trivial
  | some v =>
      show equal v v.plain = true
      rw [equal_plain]
      exact equal_refl v (h v rfl)

theorem agree_none_iff {current : Option Value} : Agree current none ↔ current = none := by
  cases current <;> simp [Agree]

theorem none_agree_iff {current : Option Value} : Agree none current ↔ current = none := by
  cases current <;> simp [Agree]

end Value

namespace Merge

open Value

variable {policy : ArrayMerge} {selectors : List Text}

theorem exists_prefix_of_walked {done : List Text} {key : Text} {more : List Text}
    (hnames : ∀ k ∈ done ++ [key], Path.IsName k)
    (hapart : ∀ selector ∈ selectors, Path.Apart (Path.split selector) (done ++ key :: more))
    (hwalked : Path.walked ((done ++ [key]).foldl Path.join []) (some selectors) = true) :
    more ≠ [] ∧ ∃ selector ∈ selectors, done ++ [key] <+: Path.split selector := by
  obtain ⟨selector, hmem, h⟩ := Path.walked_some_iff.mp hwalked
  rw [Path.split_foldl_join (by simp) hnames] at h
  have hway : done ++ [key] <+: done ++ key :: more := ⟨more, by simp⟩
  have habove : done ++ [key] <+: Path.split selector :=
    h.resolve_left fun h => (hapart selector hmem).1 (h.trans hway)
  refine ⟨?_, selector, hmem, habove⟩
  rintro rfl
  exact (hapart selector hmem).2 habove

theorem not_walked_of_apart {done : List Text} {key : Text}
    (hnames : ∀ k ∈ done ++ [key], Path.IsName k)
    (hapart : ∀ selector ∈ selectors, Path.Apart (Path.split selector) done) :
    Path.walked ((done ++ [key]).foldl Path.join []) (some selectors) = false := by
  rw [Bool.eq_false_iff]
  intro hwalked
  obtain ⟨selector, hmem, h⟩ := Path.walked_some_iff.mp hwalked
  rw [Path.split_foldl_join (by simp) hnames] at h
  obtain ⟨hbelow, habove⟩ := hapart selector hmem
  rcases h with h | h
  · rcases List.prefix_concat_iff.mp h with heq | hprefix
    · exact habove ⟨[key], heq.symm⟩
    · exact hbelow hprefix
  · exact habove ((List.prefix_append done [key]).trans h)

theorem not_severed_of_not_walked {done : List Text} {key : Text}
    (hnames : ∀ k ∈ done ++ [key], Path.IsName k)
    (hwalked : Path.walked ((done ++ [key]).foldl Path.join []) (some selectors) = false)
    {v : Value} {way : List Text} : ¬ Severed selectors (done ++ [key]) v way := by
  intro h
  obtain ⟨selector, hmem, hbegin⟩ := h.exists_prefix
  rw [← Path.split_foldl_join (by simp) hnames] at hbegin
  rw [Path.walked_some_iff.mpr ⟨selector, hmem, .inr hbegin⟩] at hwalked
  exact absurd hwalked (by simp)

/-- Below a key at which the record has no map, a merge leaves what it would leave in an empty map,
or nothing. -/
theorem getPath?_merged_eq_none {path : Text} {current : Option Value}
    (hcurrent : ∀ c ∈ current, c.isMap = false) {entries : Entries Value} {key : Text}
    {more : List Text}
    (h : getPath? (.map (mergeEntries policy (some selectors) path [] entries)) (key :: more) =
      none) :
    ((mergeValue policy (some selectors) path current (.map entries)).or current).bind
      (fun v => getPath? v (key :: more)) = none := by
  rw [mergeValue_map_of_not_map hcurrent]
  split
  · exact h
  · cases current with
    | none => rfl
    | some c => exact getPath?_cons_of_isLeaf (isLeaf_of_not_map (hcurrent c rfl)) key more

/-- Outside the selectors the merged map agrees with the record's exactly if the record has nothing
there or the way is not severed.  The keys `done` lead to the two maps. -/
def KeepsOutside (policy : ArrayMerge) (selectors done : List Text) (record entries : Entries Value)
    (way : List Text) : Prop :=
  Agree (getPath? (.map record) way)
      (getPath? (.map (mergeEntries policy (some selectors) (done.foldl Path.join [])
        (plainEntries record) entries)) way) ↔
    (getPath? (.map record) way ≠ none → ¬ Severed selectors done (.map entries) way)

/-- What is left as it was agrees with the record, and the way to it must not be severed. -/
theorem agree_kept_iff {current : Option Value} (hcurrent : ∀ c ∈ current, c.WellFormed)
    {severed : Prop} (h : ¬ severed) :
    Agree current (current.map plain) ↔ (current ≠ none → ¬ severed) :=
  iff_of_true (agree_map_plain hcurrent) fun _ => h

theorem agree_merged_iff {done : List Text} {current : Option Value} {v : Value} {key : Text}
    {more : List Text} (hwalked : Path.walked (done.foldl Path.join []) (some selectors) = true)
    (hselector : ∃ selector ∈ selectors, done <+: Path.split selector)
    (hcurrent : ∀ c ∈ current, c.WellFormed)
    (ih : ∀ record entries, v = .map entries → (Value.map record).WellFormed →
      KeepsOutside policy selectors done record entries (key :: more)) :
    Agree (current.bind fun c => getPath? c (key :: more))
        ((merged policy (some selectors) (done.foldl Path.join []) (current.map plain)
          (some v)).bind fun c => getPath? c (key :: more)) ↔
      (current.bind (fun c => getPath? c (key :: more)) ≠ none →
        ¬ Severed selectors done v (key :: more)) := by
  rw [merged_of_walked hwalked]
  cases hmap : v.isMap with
  | false =>
      -- the value takes the place of whatever the record has, and nothing is below it
      rw [mergeValue_of_whole hmap, Option.some_or, Option.bind_some,
        getPath?_cons_of_isLeaf (isLeaf_of_not_map (isMap_overlay hmap)), agree_none_iff]
      simp [severed_of_not_map hmap hselector]
  | true =>
      obtain ⟨entries, rfl⟩ := exists_map_of_isMap hmap
      rcases exists_map_or_forall current with ⟨record, rfl⟩ | hnone
      · exact ih record entries rfl (hcurrent (.map record) rfl)
      · -- the record has nothing below the key, and the entries leave nothing in an empty map
        have hrecord : current.bind (fun c => getPath? c (key :: more)) = none := by
          cases current with
          | none => rfl
          | some c => exact getPath?_cons_of_isLeaf (isLeaf_of_not_map (hnone c rfl)) key more
        have hempty := ih [] entries rfl ⟨List.nodup_nil, trivial⟩
        have hlanded := none_agree_iff.mp (hempty.mpr fun h => absurd rfl h)
        rw [hrecord, none_agree_iff,
          getPath?_merged_eq_none (forall_isMap_plain.mpr hnone) hlanded]
        simp

theorem keepsOutside_nil {done : List Text} {record entries : Entries Value}
    (hdone : ∀ key ∈ done, Path.IsName key) (hrecord : (Value.map record).WellFormed)
    (hnamed : (Value.map entries).Named)
    (hapart : ∀ selector ∈ selectors, Path.Apart (Path.split selector) done) :
    KeepsOutside policy selectors done record entries [] := by
  unfold KeepsOutside
  rw [mergeEntries_of_not_walked]
  · exact @agree_kept_iff (some (.map record)) (fun v hv => Option.some.inj hv ▸ hrecord) _
      (not_severed_nil entries)
  · intro entry hentry
    have hname := (namedEntries_iff.mp hnamed entry hentry).1
    rw [← Path.foldl_join_concat]
    exact not_walked_of_apart (Path.forall_isName_concat hdone hname) hapart

theorem keepsOutside {way done : List Text} {record entries : Entries Value}
    (hdone : ∀ key ∈ done, Path.IsName key) (hrecord : (Value.map record).WellFormed)
    (hentries : (Value.map entries).WellFormed) (hnamed : (Value.map entries).Named)
    (hapart : ∀ selector ∈ selectors, Path.Apart (Path.split selector) (done ++ way)) :
    KeepsOutside policy selectors done record entries way := by
  induction way generalizing done record entries with
  | nil =>
      rw [List.append_nil] at hapart
      exact keepsOutside_nil hdone hrecord hnamed hapart
  | cons key more ih =>
      have hcurrent : ∀ v ∈ (Entries.get? record key).bind (fun v => getPath? v more),
          v.WellFormed := fun v hv =>
        wellFormed_of_getPath? hrecord ((getPath?_map_cons record key more).trans hv)
      unfold KeepsOutside
      rw [getPath?_map_cons, getPath?_map_cons, get?_mergeEntries hentries.1,
        Entries.get?_plainEntries, ← Path.foldl_join_concat]
      cases hv : Entries.get? entries key with
      | none =>
          rw [merged, bind_getPath?_plain]
          exact agree_kept_iff hcurrent fun h => by simp [severed_cons, hv] at h
      | some v =>
          obtain ⟨hname, hnamedValue⟩ := hnamed.of_get? hv
          have hnames := Path.forall_isName_concat hdone hname
          have hsevered : Severed selectors done (.map entries) (key :: more) ↔
              Severed selectors (done ++ [key]) v more := by simp [severed_cons, hv]
          rw [hsevered]
          cases hwalked : Path.walked ((done ++ [key]).foldl Path.join []) (some selectors) with
          | false =>
              rw [merged_of_not_walked hwalked, bind_getPath?_plain]
              exact agree_kept_iff hcurrent (not_severed_of_not_walked hnames hwalked)
          | true =>
              obtain ⟨hmore, hselector⟩ := exists_prefix_of_walked hnames hapart hwalked
              obtain ⟨next, rest, rfl⟩ := List.exists_cons_of_ne_nil hmore
              refine agree_merged_iff hwalked hselector
                (fun c hc => wellFormed_of_get? hrecord.2 hc) ?_
              rintro below es rfl hbelow
              refine ih hnames hbelow (wellFormed_of_get? hentries.2 hv) hnamedValue ?_
              simpa using hapart

/-- A place neither at nor below a selector nor above one keeps what the record has there exactly if
the way to it is not severed; and it gets nothing if the record has nothing there. -/
theorem agree_applyExtracted_iff {record entries : Entries Value} {way : List Text}
    (hrecord : (Value.map record).WellFormed) (hentries : (Value.map entries).WellFormed)
    (hnamed : (Value.map entries).Named)
    (hbelow : ∀ selector ∈ selectors, ¬ Path.split selector <+: way)
    (habove : ∀ selector ∈ selectors, ¬ way <+: Path.split selector) :
    Agree (getPath? (.map record) way)
        (getPath? (applyExtracted policy (some selectors) (.map record) (.map entries)) way) ↔
      (getPath? (.map record) way ≠ none → ¬ Severed selectors [] (.map entries) way) := by
  have hkeeps : KeepsOutside policy selectors [] record entries way :=
    keepsOutside (List.forall_mem_nil _) hrecord hentries hnamed fun selector hmem =>
      ⟨hbelow selector hmem, habove selector hmem⟩
  exact hkeeps

/-- A text above a selector takes the place of a whole map, and what stands beside the selector is
gone; what stands beside a selector below maps is kept. -/
theorem agree_applyExtracted_iff_above_selector :
    let record := [(text "a", Value.map [(text "c", .text (text "1"))]),
      (text "d", .map [(text "e", .text (text "2"))])]
    let entries := [(text "a", Value.text (text "x")),
      (text "d", .map [(text "e", .text (text "3")), (text "f", .text (text "4"))])]
    let selectors := [text "a.b", text "d.f"]
    let updated := applyExtracted .replace (some selectors) (.map record) (.map entries)
    let lost := [text "a", text "c"]
    let kept := [text "d", text "e"]
    (Value.map record).WellFormed ∧ (Value.map entries).WellFormed ∧ (Value.map entries).Named ∧
      (∀ selector ∈ selectors, ¬ Path.split selector <+: lost ∧ ¬ lost <+: Path.split selector) ∧
      (∀ selector ∈ selectors, ¬ Path.split selector <+: kept ∧ ¬ kept <+: Path.split selector) ∧
      ¬ Agree (getPath? (.map record) lost) (getPath? updated lost) ∧
      Agree (getPath? (.map record) kept) (getPath? updated kept) := by
  intro record entries selectors updated lost kept
  have hrecord : (Value.map record).WellFormed :=
    ⟨show [text "a", text "d"].Nodup by decide +kernel,
      ⟨List.pairwise_singleton _ _, trivial, trivial⟩,
      ⟨List.pairwise_singleton _ _, trivial, trivial⟩, trivial⟩
  have hentries : (Value.map entries).WellFormed :=
    ⟨show [text "a", text "d"].Nodup by decide +kernel, trivial,
      ⟨show [text "e", text "f"].Nodup by decide +kernel, trivial, trivial, trivial⟩, trivial⟩
  have hnamed : (Value.map entries).Named := 
    ⟨show Path.IsName (text "a") by decide +kernel, trivial,
      show Path.IsName (text "d") by decide +kernel,
      ⟨show Path.IsName (text "e") by decide +kernel, trivial,
        show Path.IsName (text "f") by decide +kernel, trivial, trivial⟩, trivial⟩
  have hlost : ∀ selector ∈ selectors,
      ¬ Path.split selector <+: lost ∧ ¬ lost <+: Path.split selector := by decide +kernel
  have hkept : ∀ selector ∈ selectors,
      ¬ Path.split selector <+: kept ∧ ¬ kept <+: Path.split selector := by decide +kernel
  refine ⟨hrecord, hentries, hnamed, hlost, hkept, ?_, ?_⟩
  · intro hagree
    have hsevered : Severed selectors [] (.map entries) lost :=
      ⟨[text "a"], .text (text "x"), by decide +kernel, rfl, rfl, text "a.b", by simp [selectors],
        by decide +kernel⟩
    exact (agree_applyExtracted_iff hrecord hentries hnamed (fun s hs => (hlost s hs).1)
      (fun s hs => (hlost s hs).2)).mp hagree (by decide +kernel) hsevered
  · refine (agree_applyExtracted_iff hrecord hentries hnamed (fun s hs => (hkept s hs).1)
      (fun s hs => (hkept s hs).2)).mpr fun _ hsevered => ?_
    -- the extracted data has a map at `d`, and no selector lies at or below the place
    obtain ⟨v, hv, hbelow⟩ := severed_cons.mp hsevered
    obtain rfl := Option.some.inj hv
    obtain ⟨w, -, hbelow⟩ := severed_cons.mp hbelow
    obtain ⟨selector, hmem, hprefix⟩ := hbelow.exists_prefix
    exact (hkept selector hmem).2 hprefix

end Merge

end InverseTemplate
