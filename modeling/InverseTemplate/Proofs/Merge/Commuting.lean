/-
# Merges that commute

Two edits that have no leaf at one place, and none of the one above one of the other, do not get
in each other's way: a record into which both are merged is the same in either order, whatever the
array policy (`equal_applyExtracted_comm`).  It need not have its keys in the same order, so the
two are equal and not identical.

Under a key for which only one of the edits has something, there is only one merge.  Where both
have something, each has a map with entries, since a leaf would stand above every leaf of the
other; and both maps are merged into the record's, or into an empty one.  So the induction goes
down through the maps that both edits have.
-/
import InverseTemplate.Proofs.Extraction.WellFormed
import InverseTemplate.Proofs.Merge.Plain

namespace InverseTemplate

namespace Value

/-- No leaf of the one stands where the other has a leaf, nor above or below one. -/
def LeavesApart (v w : Value) : Prop :=
  ∀ p ∈ v.leafPlaces, ∀ q ∈ w.leafPlaces, Path.Apart p.1 q.1

theorem LeavesApart.symm {v w : Value} (h : LeavesApart v w) : LeavesApart w v :=
  fun q hq p hp => (h p hp q hq).symm

theorem LeavesApart.exists_map {v w : Value} (h : LeavesApart v w) :
    ∃ entries, v = .map entries ∧ v.leafPlaces = leafPlacesBelow entries := by
  obtain ⟨q, hq⟩ := List.exists_mem_of_ne_nil _ (leafPlaces_ne_nil w)
  have hleaf : ¬ v.IsLeaf := by
    intro hleaf
    have hself : ([], v) ∈ v.leafPlaces := by simp [leafPlaces_of_isLeaf hleaf]
    exact (h _ hself q hq).1 List.nil_prefix
  cases v with
  | map entries =>
      refine ⟨entries, rfl, leafPlaces_map ?_⟩
      rintro rfl
      exact hleaf fun _ heq => (Value.map.inj heq).symm
  | _ => exact absurd (isLeaf_of_not_map rfl) hleaf

/-- The leaves of two maps. -/
def LeavesApartBelow (a b : Entries Value) : Prop :=
  ∀ p ∈ leafPlacesBelow a, ∀ q ∈ leafPlacesBelow b, Path.Apart p.1 q.1

instance : DecidableRel LeavesApartBelow := fun a b =>
  inferInstanceAs (Decidable (∀ p ∈ leafPlacesBelow a, ∀ q ∈ leafPlacesBelow b,
    Path.Apart p.1 q.1))

theorem LeavesApartBelow.of_get? {a b : Entries Value} (h : LeavesApartBelow a b) {key : Text}
    {v w : Value} (hv : Entries.get? a key = some v) (hw : Entries.get? b key = some w) :
    LeavesApart v w := by
  intro p hp q hq
  have hcons := h _ (cons_mem_leafPlacesBelow (Entries.mem_of_get? hv) hp) _
    (cons_mem_leafPlacesBelow (Entries.mem_of_get? hw) hq)
  exact hcons.of_cons

end Value

namespace Merge

open Value

variable {policy : ArrayMerge}

/-- Merging `v` and then `w` at a place leaves what merging `w` and then `v` does. -/
def Commutes (policy : ArrayMerge) (path : Text) (current v w : Option Value) : Prop :=
  Agree (merged policy none path (merged policy none path current v) w)
    (merged policy none path (merged policy none path current w) v)

theorem wellFormed_merged {path : Text} {current new : Option Value}
    (hcurrent : ∀ c ∈ current, c.WellFormed) (hnew : ∀ v ∈ new, v.WellFormed) :
    ∀ w ∈ merged policy none path current new, w.WellFormed := by
  intro w hw
  cases new with
  | none => exact hcurrent w hw
  | some v =>
      rw [merged_of_walked rfl] at hw
      rcases Option.or_eq_some_iff.mp hw with hmerged | ⟨-, hold⟩
      · exact wellFormed_mergeValue v path current w hcurrent (hnew v rfl) hmerged
      · exact hcurrent w hold

theorem commutes_of_none {path : Text} {current v w : Option Value}
    (hcurrent : ∀ c ∈ current, c.WellFormed) (hv : ∀ x ∈ v, x.WellFormed)
    (hw : ∀ x ∈ w, x.WellFormed) (hnone : v = none ∨ w = none) :
    Commutes policy path current v w := by
  have hmerged : ∀ c ∈ merged policy none path (merged policy none path current v) w,
      c.WellFormed := wellFormed_merged (wellFormed_merged hcurrent hv) hw
  rcases hnone with rfl | rfl
  · exact agree_refl hmerged
  · exact agree_refl hmerged

theorem equal_mergeEntries_comm_of_forall {above : Text} {target a b : Entries Value}
    (htarget : (Value.map target).WellFormed) (ha : (Value.map a).WellFormed)
    (hb : (Value.map b).WellFormed)
    (h : ∀ key v w, Entries.get? a key = some v → Entries.get? b key = some w →
      Commutes policy (Path.join above key) (Entries.get? target key) (some v) (some w)) :
    equal (.map (mergeEntries policy none above (mergeEntries policy none above target a) b))
      (.map (mergeEntries policy none above (mergeEntries policy none above target b) a)) =
        true := by
  have hkey : ∀ key, Commutes policy (Path.join above key) (Entries.get? target key)
      (Entries.get? a key) (Entries.get? b key) := by
    intro key
    by_cases hboth : Entries.get? a key = none ∨ Entries.get? b key = none
    · exact commutes_of_none (fun c hc => wellFormed_of_get? htarget.2 hc)
        (fun v hv => wellFormed_of_get? ha.2 hv) (fun w hw => wellFormed_of_get? hb.2 hw) hboth
    · obtain ⟨hv, hw⟩ := not_or.mp hboth
      obtain ⟨v, hv⟩ := Option.ne_none_iff_exists'.mp hv
      obtain ⟨w, hw⟩ := Option.ne_none_iff_exists'.mp hw
      rw [hv, hw]
      exact h key v w hv hw
  refine (equal_map_iff ?_).mpr fun key => ?_
  · exact nodupKeys_mergeEntries (nodupKeys_mergeEntries htarget.1 above a) above b
  · rw [get?_mergeEntries hb.1, get?_mergeEntries ha.1, get?_mergeEntries ha.1,
      get?_mergeEntries hb.1]
    exact hkey key

/-- Two values whose leaves are apart commute, wherever they are merged. -/
theorem commutes_of_leavesApart {v w : Value} (hv : v.WellFormed) (hw : w.WellFormed)
    (hapart : LeavesApart v w) (path : Text) {current : Option Value}
    (hcurrent : ∀ c ∈ current, c.WellFormed) :
    Commutes policy path current (some v) (some w) := by
  induction v using mapInduction generalizing w path current with
  | whole v hwhole =>
      obtain ⟨entries, rfl, -⟩ := hapart.exists_map
      exact absurd hwhole (by simp [isMap, entries?])
  | map a ih =>
      obtain ⟨a, ⟨⟩, ha⟩ := hapart.exists_map
      obtain ⟨b, rfl, hb⟩ := hapart.symm.exists_map
      have hbelow : LeavesApartBelow a b := by
        intro p hp q hq
        exact hapart p (ha ▸ hp) q (hb ▸ hq)
      have hmaps : ∀ record : Entries Value, (Value.map record).WellFormed →
          Commutes policy path (some (.map record)) (some (.map a)) (some (.map b)) := by
        intro record hrecord
        unfold Commutes
        rw [merged_map_map, merged_map_map, merged_map_map, merged_map_map]
        refine equal_mergeEntries_comm_of_forall hrecord hv hw fun key x y hx hy => ?_
        exact ih (key, x) (Entries.mem_of_get? hx) (wellFormed_of_get? hv.2 hx)
          (wellFormed_of_get? hw.2 hy) (hbelow.of_get? hx hy) _
          fun c hc => wellFormed_of_get? hrecord.2 hc
      -- without a map in the record both are merged into an empty one
      rcases exists_map_or_forall current with ⟨record, rfl⟩ | hnone
      · exact hmaps record (hcurrent _ rfl)
      · unfold Commutes
        rw [merged_map_of_not_map hnone, merged_map_of_not_map hnone]
        exact hmaps [] wellFormed_empty

/-- Applying two edits whose leaves are apart leaves equal records in either order. -/
theorem equal_applyExtracted_comm (policy : ArrayMerge) {record a b : Entries Value}
    (hrecord : (Value.map record).WellFormed) (ha : (Value.map a).WellFormed)
    (hb : (Value.map b).WellFormed) (hapart : LeavesApartBelow a b) :
    equal
      (applyExtracted policy none (applyExtracted policy none (.map record) (.map a)) (.map b))
      (applyExtracted policy none (applyExtracted policy none (.map record) (.map b)) (.map a)) =
        true := by
  simp only [applyExtracted]
  rw [← plainEntries_mergeEntries, ← plainEntries_mergeEntries, plainEntries_plainEntries]
  refine equal_mergeEntries_comm_of_forall (wellFormed_plain _ hrecord) ha hb
    fun key v w hv hw => ?_
  have hplain : (Value.map (plainEntries record)).WellFormed := wellFormed_plain _ hrecord
  exact commutes_of_leavesApart (wellFormed_of_get? ha.2 hv) (wellFormed_of_get? hb.2 hw)
    (hapart.of_get? hv hw) _ fun c hc => wellFormed_of_get? hplain.2 hc

/-- Both edits replace the same number by a map, and add to the same map of the record: the keys
come out in another order. -/
theorem equal_applyExtracted_comm_shared :
    let record := [(text "a", Value.int 1), (text "m", .map [(text "t", .list [.int 2])])]
    let a := [(text "a", Value.map [(text "b", .int 3)]),
      (text "m", .map [(text "t", .list [.int 4]), (text "x", .map [])])]
    let b := [(text "m", Value.map [(text "y", .null)]),
      (text "a", .map [(text "c", .map [(text "d", .int 5)])])]
    let first := applyExtracted .append none (applyExtracted .append none (.map record) (.map a))
      (.map b)
    let second := applyExtracted .append none (applyExtracted .append none (.map record) (.map b))
      (.map a)
    (Value.map record).WellFormed ∧ (Value.map a).WellFormed ∧ (Value.map b).WellFormed ∧
      LeavesApartBelow a b ∧ equal first second = true ∧
      (getPath? first [text "a"]).map (·.entries?.map Entries.keys) =
        some (some [text "b", text "c"]) ∧
      (getPath? second [text "a"]).map (·.entries?.map Entries.keys) =
        some (some [text "c", text "b"]) := by
  intro record a b first second
  have hrecord : (Value.map record).WellFormed :=
    ⟨show [text "a", text "m"].Nodup by decide +kernel, trivial,
      ⟨List.pairwise_singleton _ _, ⟨trivial, trivial⟩, trivial⟩, trivial⟩
  have ha : (Value.map a).WellFormed :=
    ⟨show [text "a", text "m"].Nodup by decide +kernel,
      ⟨List.pairwise_singleton _ _, trivial, trivial⟩,
      ⟨show [text "t", text "x"].Nodup by decide +kernel, ⟨trivial, trivial⟩, wellFormed_empty,
        trivial⟩, trivial⟩
  have hb : (Value.map b).WellFormed :=
    ⟨show [text "m", text "a"].Nodup by decide +kernel,
      ⟨List.pairwise_singleton _ _, trivial, trivial⟩,
      ⟨List.pairwise_singleton _ _, ⟨List.pairwise_singleton _ _, trivial, trivial⟩, trivial⟩,
      trivial⟩
  have hapart : LeavesApartBelow a b := by decide +kernel
  refine ⟨hrecord, ha, hb, hapart, equal_applyExtracted_comm .append hrecord ha hb hapart, ?_, ?_⟩
  · decide +kernel
  · decide +kernel

end Merge

end InverseTemplate
