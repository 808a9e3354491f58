/-
# Differences that are empty

Without selectors a comparison finds nothing exactly if the two values are equal.  Comparing goes
through the entries of the extracted side and then looks for what the record has beyond them;
equality asks for the same keys with equal values.  The two meet level by level: an extracted map is
equal to the record's map if each of its entries was found equal there and no key of the record is
missing.

No unequal pair is passed over: a map that only the extracted side has is added even if it is empty,
and a map that only the record has is listed by its leaves, of which every value has at least one.
-/
import InverseTemplate.Proofs.Difference.Maps
import InverseTemplate.Proofs.Value.Nested

namespace InverseTemplate

/-- Two maps are equal if every entry of the second one has an equal in the first one, and the first
one has no other keys. -/
theorem Value.equal_map_iff_of_entries {xs ys : Entries Value} (hxs : Entries.NodupKeys xs)
    (hys : Entries.NodupKeys ys) :
    equal (.map xs) (.map ys) = true ↔
      (∀ entry ∈ ys, ∃ x ∈ Entries.get? xs entry.1, equal x entry.2 = true) ∧
        ∀ entry ∈ xs, Entries.contains ys entry.1 = true := by
  rw [equal_map_iff hxs]
  constructor
  · intro h
    constructor
    · intro entry hentry
      have hagree := h entry.1
      rw [Entries.get?_of_mem hys hentry] at hagree
      cases hx : Entries.get? xs entry.1 with
      | none =>
          rw [hx] at hagree
          exact hagree.elim
      | some x =>
          rw [hx] at hagree
          exact ⟨x, rfl, hagree⟩
    · intro entry hentry
      have hagree := h entry.1
      rw [Entries.get?_of_mem hxs hentry] at hagree
      rw [Entries.contains]
      cases hy : Entries.get? ys entry.1 with
      | none =>
          rw [hy] at hagree
          exact hagree.elim
      | some y => rfl
  · rintro ⟨hequal, hcontains⟩ key
    cases hy : Entries.get? ys key with
    | some y =>
        obtain ⟨x, hx, heq⟩ := hequal (key, y) (Entries.mem_of_get? hy)
        rw [hx]
        exact heq
    | none =>
        cases hx : Entries.get? xs key with
        | none => trivial
        | some x =>
            have := hcontains (key, x) (Entries.mem_of_get? hx)
            rw [Entries.contains, hy] at this
            exact absurd this (by simp)

namespace Difference

variable {selectors : Option (List Text)}

/-! ## Nothing found -/

theorem Findings.append_eq_empty_iff {f g : Findings} :
    f.append g = .empty ↔ f = .empty ∧ g = .empty := by
  cases f
  cases g
  simp only [append, empty, mk.injEq, List.append_eq_nil_iff]
  constructor
  · rintro ⟨⟨ha, ha'⟩, ⟨hm, hm'⟩, hr, hr'⟩
    exact ⟨⟨ha, hm, hr⟩, ha', hm', hr'⟩
  · rintro ⟨⟨ha, hm, hr⟩, ha', hm', hr'⟩
    exact ⟨⟨ha, ha'⟩, ⟨hm, hm'⟩, hr, hr'⟩

theorem Findings.under_eq_empty_iff {key : Text} {f : Findings} :
    f.under key = .empty ↔ f = .empty := by
  obtain ⟨added, modified, removed⟩ := f
  cases added <;> simp [under, empty]

theorem Findings.ofRemoved_eq_empty_iff {paths : List Text} :
    ofRemoved paths = .empty ↔ paths = [] := by
  simp [ofRemoved, empty]

theorem missing_eq_nil_iff {above : Text} {extracted base : Entries Value} :
    missing none above extracted base = [] ↔
      ∀ entry ∈ base, Entries.contains extracted entry.1 = true := by
  rw [missing, List.flatMap_eq_nil_iff]
  refine forall₂_congr fun entry _ => ?_
  have hleaves := Value.leavesAt_ne_nil entry.2 (Path.join above entry.1)
  split
  · next h => simp [h]
  · next h => simp [h, Path.covered, List.filter_eq_self.mpr, hleaves]

theorem compareEntries_eq_empty_iff {above : Text} {record entries : Entries Value} :
    compareEntries none above record entries = .empty ↔
      ∀ entry ∈ entries, compareValue none (Path.join above entry.1) entry.1
        (Entries.get? record entry.1) entry.2 = .empty := by
  induction entries with
  | nil => simp [compareEntries]
  | cons entry rest ih =>
      obtain ⟨key, v⟩ := entry
      rw [compareEntries, Findings.append_eq_empty_iff, ih, List.forall_mem_cons]
      simp [Path.walked]

theorem compareMaps_eq_empty_iff {path : Text} {record entries : Entries Value} :
    compareMaps none path record entries = .empty ↔
      (∀ entry ∈ entries, compareValue none (Path.join path entry.1) entry.1
        (Entries.get? record entry.1) entry.2 = .empty) ∧
        ∀ entry ∈ record, Entries.contains entries entry.1 = true := by
  rw [compareMaps, Findings.append_eq_empty_iff, Findings.ofRemoved_eq_empty_iff,
    compareEntries_eq_empty_iff, missing_eq_nil_iff]

/-- Two maps are equal if nothing is found between them, provided this is so of their values. -/
theorem compareMaps_eq_empty_iff_equal_of_forall {path : Text} {record entries : Entries Value}
    (hrecord : Entries.NodupKeys record) (hentries : Entries.NodupKeys entries)
    (h : ∀ entry ∈ entries,
      compareValue none (Path.join path entry.1) entry.1 (Entries.get? record entry.1) entry.2 =
          .empty ↔
        ∃ o ∈ Entries.get? record entry.1, Value.equal o entry.2 = true) :
    compareMaps none path record entries = .empty ↔
      Value.equal (.map record) (.map entries) = true := by
  rw [compareMaps_eq_empty_iff, Value.equal_map_iff_of_entries hrecord hentries]
  exact and_congr_left fun _ => forall₂_congr h

/-- Nothing is found where the record has an equal value, and something everywhere else. -/
theorem compareValue_eq_empty_iff {v : Value} (hv : v.WellFormed) {old : Option Value}
    (hold : ∀ o ∈ old, o.WellFormed) (path key : Text) :
    compareValue none path key old v = .empty ↔ ∃ o ∈ old, Value.equal o v = true := by
  induction old, v using compareInduction generalizing path key with
  | fresh v => simp [compareValue_none_none, Findings.empty]
  | whole o v hmaps =>
      rw [compareValue_of_not_maps hmaps]
      cases h : Value.equal o v <;> simp [h, Findings.empty]
  | maps record entries ih =>
      obtain ⟨hnodup, hvalues⟩ := hold (.map record) rfl
      rw [compareValue_map_map, Findings.under_eq_empty_iff,
        compareMaps_eq_empty_iff_equal_of_forall hnodup hv.1]
      · simp
      · exact fun entry hentry => ih entry hentry (Value.wellFormed_of_mem hv.2 hentry)
          (fun o ho => Value.wellFormed_of_get? hvalues ho) _ _

/-! ## Equality decided -/

theorem hasChanges_ofFindings {f : Findings} : (ofFindings f).hasChanges = false ↔ f = .empty := by
  obtain ⟨added, modified, removed⟩ := f
  simp only [hasChanges, isEmpty, ofFindings, Findings.empty, Bool.not_eq_false', Bool.and_eq_true,
    List.isEmpty_iff, Findings.mk.injEq, and_assoc]
  refine and_congr_right fun _ => and_congr_left fun _ => ⟨ofWrites_eq_nil, ?_⟩
  rintro rfl
  rfl

theorem between_of_not_maps {base extracted : Value}
    (h : ¬ (base.isMap = true ∧ extracted.isMap = true)) :
    between selectors base extracted =
      if Value.equal base extracted then ⟨[], [], []⟩
      else ⟨[], [([], ⟨base.plain, extracted.plain⟩)], []⟩ := by
  cases base with
  | map record =>
      cases extracted with
      | map entries => exact absurd ⟨rfl, rfl⟩ h
      | _ => rfl
  | _ => rfl

/-- The difference of two values is without changes exactly if they are equal. -/
theorem hasChanges_between_iff {base extracted : Value} (hbase : base.WellFormed)
    (hextracted : extracted.WellFormed) :
    (between none base extracted).hasChanges = false ↔ Value.equal base extracted = true := by
  by_cases hmaps : base.isMap = true ∧ extracted.isMap = true
  · obtain ⟨record, rfl⟩ := Value.exists_map_of_isMap hmaps.1
    obtain ⟨entries, rfl⟩ := Value.exists_map_of_isMap hmaps.2
    rw [between_map_map, hasChanges_ofFindings]
    refine compareMaps_eq_empty_iff_equal_of_forall hbase.1 hextracted.1 fun entry hentry => ?_
    exact compareValue_eq_empty_iff (Value.wellFormed_of_mem hextracted.2 hentry)
      (fun o ho => Value.wellFormed_of_get? hbase.2 ho) _ _
  · rw [between_of_not_maps hmaps]
    cases Value.equal base extracted <;> simp [hasChanges, isEmpty]

/-- Keys in another order and a tuple beside a list are no change, a boolean beside an integer is
one, below a key with a dot as well. -/
theorem hasChanges_between_iff_nested :
    let base := Value.map [(text "a.b", .map [(text "x", .int 1), (text "y", .tuple [.null])]),
      (text "c", .map [])]
    let same := Value.map [(text "c", .map []),
      (text "a.b", .map [(text "y", .list [.null]), (text "x", .int 1)])]
    let other := Value.map [(text "c", .map []),
      (text "a.b", .map [(text "y", .list [.null]), (text "x", .bool true)])]
    base.WellFormed ∧ same.WellFormed ∧ other.WellFormed ∧
      (between none base same).hasChanges = false ∧ Value.equal base other = false ∧
      (between none base other).hasChanges = true := by
  intro base same other
  have hnodup : ∀ k k' : Text, k ≠ k' → [k, k'].Nodup := fun k k' hne => by simp [hne]
  have hbase : base.WellFormed :=
    ⟨hnodup _ _ (by decide +kernel),
      ⟨hnodup _ _ (by decide +kernel), trivial, ⟨trivial, trivial⟩, trivial⟩,
      ⟨List.nodup_nil, trivial⟩, trivial⟩
  have hsame : same.WellFormed :=
    ⟨hnodup _ _ (by decide +kernel), ⟨List.nodup_nil, trivial⟩,
      ⟨hnodup _ _ (by decide +kernel), ⟨trivial, trivial⟩, trivial, trivial⟩, trivial⟩
  have hother : other.WellFormed :=
    ⟨hnodup _ _ (by decide +kernel), ⟨List.nodup_nil, trivial⟩,
      ⟨hnodup _ _ (by decide +kernel), ⟨trivial, trivial⟩, trivial, trivial⟩, trivial⟩
  have hne : Value.equal base other = false := by decide +kernel
  refine ⟨hbase, hsame, hother, (hasChanges_between_iff hbase hsame).mpr (by decide +kernel), hne,
    ?_⟩
  cases h : (between none base other).hasChanges with
  | true => rfl
  | false =>
      have := (hasChanges_between_iff hbase hother).mp h
      rw [hne] at this
      exact absurd this (by simp)

end Difference

end InverseTemplate
