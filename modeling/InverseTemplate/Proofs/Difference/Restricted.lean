/-
# Differences under selectors

A comparison under selectors walks down only where a selector leads and reports only what a selector
covers.  Both together ought to come to the unrestricted report with everything else left out.  For
changed and removed paths they do.  For added ones they do not quite: a value that is no map and
that the record does not have is added wherever the comparison walks, and it also walks above its
selectors (`admitted`).  So a restricted difference is the restricted report exactly if nothing is
added there.

`Findings.Restricts` is what holds at every level: the restricted findings are a filter of the
unrestricted ones.  It goes through one entry at a time, and where the comparison does not walk at
all, everything found at or below the place is left out by the filter.
-/
import InverseTemplate.Proofs.Difference.Places

namespace InverseTemplate

namespace Path

theorem join_ne_nil_of_above {above : Text} (h : above ≠ []) (key : Text) :
    join above key ≠ [] := by
  rw [join, if_neg h]
  simp

theorem split_prefix_foldl_join {path : Text} (hne : path ≠ []) (keys : List Text) :
    split path <+: split (keys.foldl join path) := by
  induction keys generalizing path with
  | nil => exact List.prefix_refl _
  | cons key more ih =>
      refine List.IsPrefix.trans ⟨split key, ?_⟩ (ih (join_ne_nil_of_above hne key))
      rw [join, if_neg hne]
      exact (List.splitOn_append_cons_self path key).symm

variable {selectors : List Text} {path p : Text}

theorem covered_of_prefix (h : split path <+: split p)
    (hpath : covered path (some selectors) = true) : covered p (some selectors) = true := by
  obtain ⟨selector, hmem, hprefix⟩ := covered_some_iff.mp hpath
  exact covered_some_iff.mpr ⟨selector, hmem, hprefix.trans h⟩

theorem walked_of_prefix (h : split path <+: split p) (hp : walked p (some selectors) = true) :
    walked path (some selectors) = true := by
  obtain ⟨selector, hmem, hprefix⟩ := walked_some_iff.mp hp
  refine walked_some_iff.mpr ⟨selector, hmem, ?_⟩
  rcases hprefix with hprefix | hprefix
  · exact List.prefix_or_prefix_of_prefix hprefix h
  · exact .inr (h.trans hprefix)

theorem walked_of_covered (hp : covered p (some selectors) = true) :
    walked p (some selectors) = true := by
  obtain ⟨selector, hmem, hprefix⟩ := covered_some_iff.mp hp
  exact walked_some_iff.mpr ⟨selector, hmem, .inl hprefix⟩

end Path

namespace Difference

open Value

variable {selectors : List Text}

/-- The leaves that a restricted comparison adds: what a selector covers, and on the way down to a
selector every value that is not a map. -/
def admitted (selectors : List Text) (leaf : Text × Value) : Bool :=
  Path.covered leaf.1 (some selectors) ||
    (Path.walked leaf.1 (some selectors) && !leaf.2.isMap)

theorem walked_of_admitted {leaf : Text × Value} (h : admitted selectors leaf = true) :
    Path.walked leaf.1 (some selectors) = true := by
  rcases Bool.or_eq_true_iff.mp h with h | h
  · exact Path.walked_of_covered h
  · exact (Bool.and_eq_true_iff.mp h).1

/-- Of all findings in the map at a path, the ones that a comparison under selectors makes. -/
structure Findings.Restricts (selectors : List Text) (above : Text) (part all : Findings) :
    Prop where
  added : leavesBelow above part.added =
    (leavesBelow above all.added).filter (admitted selectors)
  modified : part.modified =
    all.modified.filter fun change => Path.covered change.1 (some selectors)
  removed : part.removed = all.removed.filter fun path => Path.covered path (some selectors)

namespace Findings.Restricts

variable {above : Text} {part all part' all' : Findings}

theorem append (h : Restricts selectors above part all)
    (h' : Restricts selectors above part' all') :
    Restricts selectors above (part.append part') (all.append all') := by
  constructor
  · simp only [Findings.append, leavesBelow_append, List.filter_append, h.added, h'.added]
  · simp only [Findings.append, List.filter_append, h.modified, h'.modified]
  · simp only [Findings.append, List.filter_append, h.removed, h'.removed]

theorem under {key : Text} (h : Restricts selectors (Path.join above key) part all) :
    Restricts selectors above (part.under key) (all.under key) := by
  constructor
  · rw [leavesBelow_added_under, leavesBelow_added_under, h.added]
  · exact h.modified
  · exact h.removed

end Findings.Restricts

open Findings (Restricts)

theorem restricts_compareEntries {above : Text} {record entries : Entries Value}
    (h : ∀ entry ∈ entries, Restricts selectors above
      (compareEntry (some selectors) above record entry) (compareEntry none above record entry)) :
    Restricts selectors above (compareEntries (some selectors) above record entries)
      (compareEntries none above record entries) := by
  induction entries with
  | nil => constructor <;> rfl
  | cons entry rest ih =>
      obtain ⟨hfirst, hrest⟩ := List.forall_mem_cons.mp h
      exact hfirst.append (ih hrest)

theorem missing_eq_filter (above : Text) (extracted base : Entries Value) :
    missing (some selectors) above extracted base =
      (missing none above extracted base).filter fun path =>
        Path.covered path (some selectors) := by
  unfold missing
  rw [List.filter_flatMap]
  refine congrArg (base.flatMap ·) (funext fun entry => ?_)
  split
  · rfl
  · simp [Path.covered_none]

theorem restricts_compareMaps {path : Text} {record entries : Entries Value}
    (h : ∀ entry ∈ entries, Restricts selectors path
      (compareEntry (some selectors) path record entry) (compareEntry none path record entry)) :
    Restricts selectors path (compareMaps (some selectors) path record entries)
      (compareMaps none path record entries) :=
  (restricts_compareEntries h).append ⟨rfl, rfl, missing_eq_filter ..⟩

theorem restricts_empty_of_not_walked {v : Value} (hv : v.WellFormed) {above key : Text}
    (hne : Path.join above key ≠ [])
    (hwalked : Path.walked (Path.join above key) (some selectors) = false) {old : Option Value}
    (hold : ∀ o ∈ old, o.WellFormed) :
    Restricts selectors above .empty (compareValue none (Path.join above key) key old v) := by
  have hnot : ∀ keys : List Text,
      Path.walked (keys.foldl Path.join (Path.join above key)) (some selectors) ≠ true := by
    intro keys h
    rw [Path.walked_of_prefix (Path.split_prefix_foldl_join hne keys) h] at hwalked
    exact absurd hwalked (by simp)
  constructor
  · refine (List.filter_eq_nil_iff.mpr fun leaf hleaf hadmitted => ?_).symm
    obtain ⟨keys, y, ⟨-, -, hp⟩, -⟩ := (mem_added_compareValue hv above key old).mp hleaf
    exact hnot keys (hp ▸ walked_of_admitted hadmitted)
  · refine (List.filter_eq_nil_iff.mpr fun change hchange hcovered => ?_).symm
    obtain ⟨o, -, keys, o', n', -, -, -, -, rfl⟩ :=
      (mem_modified_compareValue hv _ key old).mp hchange
    exact hnot keys (Path.walked_of_covered hcovered)
  · refine (List.filter_eq_nil_iff.mpr fun p hp hcovered => ?_).symm
    obtain ⟨o, -, keys, ⟨x, -, -, rfl⟩, -⟩ := (mem_removed_compareValue hv _ key hold).mp hp
    exact hnot keys (Path.walked_of_covered hcovered)

theorem restricts_compareEntry_of_walked {above : Text} {record : Entries Value}
    {entry : Text × Value} (hv : entry.2.WellFormed) (hne : Path.join above entry.1 ≠ [])
    (hrecord : ∀ o ∈ Entries.get? record entry.1, o.WellFormed)
    (h : Path.walked (Path.join above entry.1) (some selectors) = true →
      Restricts selectors above
        (compareValue (some selectors) (Path.join above entry.1) entry.1
          (Entries.get? record entry.1) entry.2)
        (compareValue none (Path.join above entry.1) entry.1 (Entries.get? record entry.1)
          entry.2)) :
    Restricts selectors above (compareEntry (some selectors) above record entry)
      (compareEntry none above record entry) := by
  rw [compareEntry_none]
  unfold compareEntry
  cases hwalked : Path.walked (Path.join above entry.1) (some selectors) with
  | true => exact h hwalked
  | false => exact restricts_empty_of_not_walked hv hne hwalked hrecord

theorem compareEntries_none_nil (path : Text) (entries : Entries Value) :
    compareEntries none path [] entries = ⟨plainEntries entries, [], []⟩ := by
  induction entries with
  | nil => rfl
  | cons entry rest ih =>
      rw [compareEntries_cons, compareEntry_none, Entries.get?_nil, compareValue_none_none, ih]
      rfl

theorem restricts_under_of_not_covered {above key : Text} {entries : Entries Value}
    (hcovered : Path.covered (Path.join above key) (some selectors) = false)
    (h : Restricts selectors (Path.join above key)
      (compareEntries (some selectors) (Path.join above key) [] entries)
      (compareEntries none (Path.join above key) [] entries)) :
    Restricts selectors above
      (Findings.under key (compareEntries (some selectors) (Path.join above key) [] entries))
      ⟨[(key, (Value.map entries).plain)], [], []⟩ := by
  rw [compareEntries_none_nil] at h
  refine ⟨?_, h.modified, h.removed⟩
  rw [leavesBelow_added_under, h.added, leavesBelow_singleton, Value.plain]
  cases entries with
  | nil =>
      have hadmitted : admitted selectors (Path.join above key, .map []) = false := by
        simp [admitted, hcovered, isMap, entries?]
      simp [plainEntries, leavesBelow, leavesAt, hadmitted]
  | cons entry rest => rfl

theorem restricts_change (above path : Text) (change : Change) :
    Restricts selectors above
      (if Path.covered path (some selectors) then ⟨[], [(path, change)], []⟩ else .empty)
      ⟨[], [(path, change)], []⟩ := by
  cases h : Path.covered path (some selectors) <;> constructor <;>
    simp [h, Findings.empty, leavesBelow]

theorem restricts_added {v : Value} {above key : Text}
    (h : ∀ leaf ∈ v.plain.leavesAt (Path.join above key), admitted selectors leaf = true) :
    Restricts selectors above ⟨[(key, v.plain)], [], []⟩ ⟨[(key, v.plain)], [], []⟩ := by
  refine ⟨?_, rfl, rfl⟩
  rw [leavesBelow_singleton, List.filter_eq_self.mpr h]

theorem restricts_added_of_covered {v : Value} {above key : Text} (hne : Path.join above key ≠ [])
    (hcovered : Path.covered (Path.join above key) (some selectors) = true) :
    Restricts selectors above ⟨[(key, v.plain)], [], []⟩ ⟨[(key, v.plain)], [], []⟩ := by
  refine restricts_added fun leaf hleaf => ?_
  rw [leavesAt_eq_map] at hleaf
  obtain ⟨place, -, rfl⟩ := List.mem_map.mp hleaf
  have hleafCovered :=
    Path.covered_of_prefix (Path.split_prefix_foldl_join hne place.1) hcovered
  rw [admitted, hleafCovered, Bool.true_or]

theorem restricts_compareValue_of_not_map {v : Value} (hwhole : v.isMap = false)
    {above key : Text} (hwalked : Path.walked (Path.join above key) (some selectors) = true)
    (old : Option Value) :
    Restricts selectors above (compareValue (some selectors) (Path.join above key) key old v)
      (compareValue none (Path.join above key) key old v) := by
  rw [compareValue_of_not_map hwhole, compareValue_of_not_map hwhole]
  cases old with
  | none =>
      refine restricts_added fun leaf hleaf => ?_
      have hplain : v.plain.isMap = false := by rw [isMap_plain, hwhole]
      rw [leavesAt_of_isLeaf (isLeaf_of_not_map hplain), List.mem_singleton] at hleaf
      simp [hleaf, admitted, hwalked, hplain]
  | some o =>
      dsimp only
      cases Value.equal o v with
      | true => constructor <;> rfl
      | false => exact restricts_change ..

/-- At every walked place the restricted comparison makes its part of all findings. -/
theorem restricts_compareValue {v : Value} (hv : v.WellFormed) {above key : Text}
    (hne : Path.join above key ≠ [])
    (hwalked : Path.walked (Path.join above key) (some selectors) = true) {old : Option Value}
    (hold : ∀ o ∈ old, o.WellFormed) :
    Restricts selectors above (compareValue (some selectors) (Path.join above key) key old v)
      (compareValue none (Path.join above key) key old v) := by
  induction v using Value.mapInduction generalizing above key old with
  | whole v hwhole => exact restricts_compareValue_of_not_map hwhole hwalked old
  | map entries ih =>
      have hentries : ∀ record : Entries Value, (∀ key, ∀ o ∈ Entries.get? record key,
          o.WellFormed) → ∀ entry ∈ entries,
            Restricts selectors (Path.join above key)
              (compareEntry (some selectors) (Path.join above key) record entry)
              (compareEntry none (Path.join above key) record entry) := by
        intro record hrecord entry hentry
        have hentryWf := wellFormed_of_mem hv.2 hentry
        have hentryNe := Path.join_ne_nil_of_above hne entry.1
        exact restricts_compareEntry_of_walked hentryWf hentryNe (hrecord entry.1)
          fun hwalk => ih entry hentry hentryWf hentryNe hwalk (hrecord entry.1)
      cases old with
      | none =>
          rw [compareValue_none_none, compareValue]
          cases hcovered : Path.covered (Path.join above key) (some selectors) with
          | true => exact restricts_added_of_covered hne hcovered
          | false =>
              exact restricts_under_of_not_covered hcovered
                (restricts_compareEntries (hentries [] (by simp)))
      | some o =>
          cases hmap : o.isMap with
          | false =>
              rw [compareValue_map_of_not_map hmap, compareValue_map_of_not_map hmap]
              exact restricts_change ..
          | true =>
              obtain ⟨record, rfl⟩ := Value.exists_map_of_isMap hmap
              rw [compareValue_map_map, compareValue_map_map]
              have hrecord := hold (.map record) rfl
              exact (restricts_compareMaps (hentries record fun key o ho =>
                wellFormed_of_get? hrecord.2 ho)).under

theorem restricts_compareMaps_nil {record entries : Entries Value}
    (hrecord : (Value.map record).WellFormed) (hentries : (Value.map entries).WellFormed)
    (hkeys : [] ∉ Entries.keys entries) :
    Restricts selectors [] (compareMaps (some selectors) [] record entries)
      (compareMaps none [] record entries) := by
  refine restricts_compareMaps fun entry hentry => ?_
  have hv := wellFormed_of_mem hentries.2 hentry
  have hne : Path.join [] entry.1 ≠ [] := fun h => hkeys (h ▸ List.mem_map_of_mem hentry)
  have hold : ∀ o ∈ Entries.get? record entry.1, o.WellFormed :=
    fun o ho => wellFormed_of_get? hrecord.2 ho
  exact restricts_compareEntry_of_walked hv hne hold
    fun hwalked => restricts_compareValue hv hne hwalked hold

/-! ## The difference -/

theorem filterKeys_set {α : Type} (keep : Text → Bool) (m : Entries α) (key : Text) (v : α) :
    Entries.filterKeys keep (Entries.set m key v) =
      if keep key then Entries.set (Entries.filterKeys keep m) key v
      else Entries.filterKeys keep m := by
  unfold Entries.filterKeys
  induction m with
  | nil => cases h : keep key <;> simp [Entries.set, h]
  | cons entry rest ih =>
      obtain ⟨k, w⟩ := entry
      by_cases hk : k = key
      · subst hk
        cases h : keep k <;> simp [Entries.set, h]
      · rw [Entries.set, if_neg hk]
        cases h : keep k with
        | true => cases h' : keep key <;> simp [h, h', ih, Entries.set, hk]
        | false => simp [h, ih]

theorem ofWrites_filter {α : Type} (keep : Text → Bool) (writes : List (Text × α)) :
    Entries.ofWrites (writes.filter fun write => keep write.1) =
      Entries.filterKeys keep (Entries.ofWrites writes) := by
  have hfold : ∀ m : Entries α,
      (writes.filter fun write => keep write.1).foldl
          (fun m write => Entries.set m write.1 write.2) (Entries.filterKeys keep m) =
        Entries.filterKeys keep
          (writes.foldl (fun m write => Entries.set m write.1 write.2) m) := by
    induction writes with
    | nil => exact fun m => rfl
    | cons write rest ih =>
        intro m
        rw [List.foldl_cons, ← ih, filterKeys_set]
        cases h : keep write.1 <;> simp [h]
  exact hfold []

theorem filter_admitted_eq_iff {leaves : List (Text × Value)} :
    leaves.filter (admitted selectors) =
        leaves.filter (fun leaf => Path.covered leaf.1 (some selectors)) ↔
      ∀ leaf ∈ leaves, leaf.2.isMap = false → Path.walked leaf.1 (some selectors) = true →
        Path.covered leaf.1 (some selectors) = true := by
  constructor
  · intro heq leaf hleaf hmap hwalked
    have hadmitted : admitted selectors leaf = true := by simp [admitted, hmap, hwalked]
    have hmem : leaf ∈ leaves.filter (admitted selectors) :=
      List.mem_filter.mpr ⟨hleaf, hadmitted⟩
    rw [heq] at hmem
    exact (List.mem_filter.mp hmem).2
  · intro h
    refine List.filter_congr fun leaf hleaf => ?_
    have hleaf := h leaf hleaf
    unfold admitted
    cases hmap : leaf.2.isMap with
    | true => simp
    | false =>
        cases hwalked : Path.walked leaf.1 (some selectors) with
        | true => simp [hleaf hmap hwalked]
        | false => simp

/-- A restricted difference is the unrestricted one filtered, as far as changed and removed paths
go; as far as added ones go, exactly if every value that is added above a selector is a map or
covered by another selector. -/
theorem between_restricted {selectors : List Text} {record entries : Entries Value}
    (hrecord : (Value.map record).WellFormed) (hentries : (Value.map entries).WellFormed)
    (hkeys : [] ∉ Entries.keys entries) :
    let all := between none (.map record) (.map entries)
    let part := between (some selectors) (.map record) (.map entries)
    let covers := fun path => Path.covered path (some selectors)
    part.modified = Entries.filterKeys covers all.modified ∧
      part.removed = all.removed.filter covers ∧
      (leavesBelow [] part.added = (leavesBelow [] all.added).filter (fun leaf => covers leaf.1) ↔
        ∀ leaf ∈ leavesBelow [] all.added, leaf.2.isMap = false →
          Path.walked leaf.1 (some selectors) = true → covers leaf.1 = true) := by
  intro all part covers
  have h : Restricts selectors [] (compareMaps (some selectors) [] record entries)
      (compareMaps none [] record entries) := restricts_compareMaps_nil hrecord hentries hkeys
  have hall : all = ofFindings (compareMaps none [] record entries) := between_map_map ..
  have hpart : part = ofFindings (compareMaps (some selectors) [] record entries) :=
    between_map_map ..
  rw [hall, hpart]
  simp only [ofFindings, h.added, h.modified, h.removed]
  exact ⟨ofWrites_filter covers _, rfl, filter_admitted_eq_iff⟩

/-- Of two selectors one covers a change and a removed path.  The other one lies below a text that
the record does not have: the text is added, although it is not covered. -/
theorem between_restricted_above_selector :
    let record := [(text "d", Value.map [(text "e", .text (text "y")), (text "f", .null)]),
      (text "g", .null)]
    let entries := [(text "a", Value.text (text "x")),
      (text "d", .map [(text "e", .text (text "z"))])]
    let selectors := [text "a.b", text "d"]
    let all := between none (.map record) (.map entries)
    let part := between (some selectors) (.map record) (.map entries)
    (Value.map record).WellFormed ∧ (Value.map entries).WellFormed ∧ [] ∉ Entries.keys entries ∧
      Entries.keys part.modified = [text "d.e"] ∧ part.removed = [text "d.f"] ∧
      leavesBelow [] part.added = [(text "a", .text (text "x"))] ∧
      leavesBelow [] part.added ≠
        (leavesBelow [] all.added).filter (fun leaf => Path.covered leaf.1 (some selectors)) := by
  intro record entries selectors all part
  have hrecord : (Value.map record).WellFormed :=
    ⟨show [text "d", text "g"].Nodup by decide +kernel,
      ⟨show [text "e", text "f"].Nodup by decide +kernel, trivial, trivial, trivial⟩, trivial,
      trivial⟩
  have hentries : (Value.map entries).WellFormed :=
    ⟨show [text "a", text "d"].Nodup by decide +kernel, trivial,
      ⟨List.pairwise_singleton _ _, trivial, trivial⟩, trivial⟩
  have hkeys : [] ∉ Entries.keys entries := by decide +kernel
  obtain ⟨hmodified, hremoved, hadded⟩ :=
    @between_restricted selectors record entries hrecord hentries hkeys
  refine ⟨hrecord, hentries, hkeys, ?_, ?_, rfl, ?_⟩
  · rw [hmodified]
    decide +kernel
  · rw [hremoved]
    decide +kernel
  · intro heq
    have hleaf : (text "a", Value.text (text "x")) ∈ leavesBelow [] all.added :=
      List.mem_singleton.mpr rfl
    have := hadded.mp heq _ hleaf rfl (by decide +kernel)
    exact absurd this (by decide +kernel)

end Difference

end InverseTemplate
