/-
# Maps from their leaves

The listing of the leaves of a map, each with its path, is all there is to the map: no path is
listed twice, and writing the leaves at their paths, one after another, into an empty map makes
the map again, with its keys in their order at every level (`writePaths_leavesBelow`).  The keys
have to be names, so that the paths tell the ways.

By then the writes are writes at ways.  All leaves below one key are listed in a row, so their
writes make one entry at the end of what is there already (`writeAll_under`), and its value is
made of its own leaves.  A map without entries is a leaf: were it not listed, nothing would make
it again.
-/
import InverseTemplate.Proofs.Value.Place

namespace InverseTemplate

namespace Value

/-! ## Writes at ways -/

theorem writeAll_under {m : Entries Value} {key : Text} {writes : List (List Text × Value)}
    (hne : writes ≠ []) {w : Value} (hw : putAll (Entries.get? m key) writes = some w) :
    writeAll m (writes.map fun write => (key :: write.1, write.2)) = Entries.set m key w := by
  induction writes generalizing m with
  | nil => exact absurd rfl hne
  | cons write rest ih =>
      rw [putAll, List.foldl_cons, ← putAll] at hw
      rw [List.map_cons, writeAll, List.foldl_cons, ← writeAll]
      dsimp only
      rw [setPath_cons]
      cases rest with
      | nil =>
          cases hw
          rfl
      | cons next more =>
          rw [ih (List.cons_ne_nil next more) (by rw [Entries.get?_set_self]; exact hw),
            Entries.set_set]

theorem putAll_none {writes : List (List Text × Value)} (hne : writes ≠ [])
    (h : ∀ write ∈ writes, write.1 ≠ []) :
    putAll none writes = some (.map (writeAll [] writes)) := by
  rw [← putAll_map h]
  obtain ⟨write, rest, rfl⟩ := List.exists_cons_of_ne_nil hne
  obtain ⟨key, more, hway⟩ := List.exists_cons_of_ne_nil (h write (List.mem_cons_self ..))
  have hput : put none write.1 write.2 = put (some (.map [])) write.1 write.2 := by
    rw [hway]
    rfl
  rw [putAll, putAll, List.foldl_cons, List.foldl_cons, hput]

theorem writeAll_leafPlacesBelow_of_forall {m entries : Entries Value}
    (hnodup : Entries.NodupKeys (m ++ entries))
    (h : ∀ entry ∈ entries, putAll none entry.2.leafPlaces = some entry.2) :
    writeAll m (leafPlacesBelow entries) = m ++ entries := by
  induction entries generalizing m with
  | nil => exact (List.append_nil m).symm
  | cons entry rest ih =>
      obtain ⟨key, v⟩ := entry
      obtain ⟨hfirst, hrest⟩ := List.forall_mem_cons.mp h
      have hnone := Entries.get?_eq_none_of_append hnodup
      have hunder : writeAll m (v.leafPlaces.map fun place => (key :: place.1, place.2)) =
          m ++ [(key, v)] := by
        rw [writeAll_under (leafPlaces_ne_nil v) (by rw [hnone]; exact hfirst),
          Entries.set_of_get?_eq_none hnone]
      calc writeAll m (leafPlacesBelow ((key, v) :: rest))
          = writeAll (writeAll m (v.leafPlaces.map fun place => (key :: place.1, place.2)))
              (leafPlacesBelow rest) := List.foldl_append
        _ = writeAll (m ++ [(key, v)]) (leafPlacesBelow rest) := by rw [hunder]
        _ = m ++ [(key, v)] ++ rest := ih (hnodup.concat_append v) hrest
        _ = m ++ (key, v) :: rest := by rw [List.append_assoc, List.singleton_append]

/-- The leaves of a value make the value. -/
theorem putAll_leafPlaces {v : Value} (hv : v.WellFormed) : putAll none v.leafPlaces = some v := by
  induction v using mapInduction with
  | whole v hwhole =>
      rw [leafPlaces_of_isLeaf (isLeaf_of_not_map hwhole)]
      rfl
  | map entries ih =>
      by_cases hne : entries = []
      · subst hne
        rfl
      · have hbelow : writeAll [] (leafPlacesBelow entries) = entries :=
          writeAll_leafPlacesBelow_of_forall hv.1 fun entry hentry =>
            ih entry hentry (wellFormed_of_mem hv.2 hentry)
        have hways : ∀ place ∈ leafPlacesBelow entries, place.1 ≠ [] :=
          fun place hplace => ((mem_leafPlacesBelow_iff hv).mp hplace).1
        have hleaves := leafPlaces_ne_nil (.map entries)
        rw [leafPlaces_map hne] at hleaves ⊢
        rw [putAll_none hleaves hways, hbelow]

theorem writeAll_leafPlacesBelow {entries : Entries Value} (h : (Value.map entries).WellFormed) :
    writeAll [] (leafPlacesBelow entries) = entries :=
  writeAll_leafPlacesBelow_of_forall h.1 fun _ hentry =>
    putAll_leafPlaces (wellFormed_of_mem h.2 hentry)

end Value

/-! ## Writes at paths -/

namespace Entries

open Value

/-- Writes values at their paths, one after another. -/
def writePaths (m : Entries Value) (writes : List (Text × Value)) : Entries Value :=
  writes.foldl (fun m write => setPath m (Path.split write.1) write.2) m

theorem writePaths_eq (m : Entries Value) (writes : List (Text × Value)) :
    writePaths m writes =
      writeAll m (writes.map fun write => (Path.split write.1, write.2)) := by
  rw [writePaths, writeAll, List.foldl_map]

/-- The leaves of a map of names are listed under different paths, and writing them at these paths
into an empty map makes the map again. -/
theorem writePaths_leavesBelow {entries : Entries Value} (h : (Value.map entries).WellFormed)
    (hnamed : (Value.map entries).Named) :
    ((leavesBelow [] entries).map Prod.fst).Nodup ∧
      writePaths [] (leavesBelow [] entries) = entries := by
  refine ⟨nodup_leavesBelow h hnamed, ?_⟩
  have hsplit : ∀ place ∈ leafPlacesBelow entries,
      Path.split (place.1.foldl Path.join []) = place.1 := by
    intro place hplace
    obtain ⟨hne, hget, -⟩ := (mem_leafPlacesBelow_iff h).mp hplace
    exact hnamed.split_foldl_join hne hget
  have hways : (leavesBelow [] entries).map (fun leaf => (Path.split leaf.1, leaf.2)) =
      leafPlacesBelow entries := by
    rw [leavesBelow_eq_map, List.map_map]
    refine (List.map_congr_left fun place hplace => ?_).trans (List.map_id _)
    exact congrArg (·, place.2) (hsplit place hplace)
  rw [writePaths_eq, hways, writeAll_leafPlacesBelow h]

/-- Two maps side by side, one of them with a map without entries between two texts; a list is a
leaf, whatever keys the maps in it have. -/
theorem writePaths_leavesBelow_nested :
    let entries := [(text "b", Value.map [(text "y", .text (text "1")), (text "x", .map []),
        (text "w", .map [(text "v", .text (text "2"))])]),
      (text "a", .list [.map [(text "c.d", .null)]]), (text "c", .map [(text "y", .int 3)])]
    (Value.map entries).WellFormed ∧ (Value.map entries).Named ∧
      (leavesBelow [] entries).map Prod.fst =
        [text "b.y", text "b.x", text "b.w.v", text "a", text "c.y"] ∧
      ((leavesBelow [] entries).map Prod.fst).Nodup ∧
      writePaths [] (leavesBelow [] entries) = entries := by
  intro entries
  have hentries : (Value.map entries).WellFormed :=
    ⟨show [text "b", text "a", text "c"].Nodup by decide +kernel,
      ⟨show [text "y", text "x", text "w"].Nodup by decide +kernel, trivial,
        ⟨List.nodup_nil, trivial⟩, ⟨List.pairwise_singleton _ _, trivial, trivial⟩, trivial⟩,
      ⟨⟨List.pairwise_singleton _ _, trivial, trivial⟩, trivial⟩,
      ⟨List.pairwise_singleton _ _, trivial, trivial⟩, trivial⟩
  have hnamed : (Value.map entries).Named :=
    ⟨by decide +kernel, ⟨by decide +kernel, trivial, by decide +kernel, trivial,
        by decide +kernel, ⟨by decide +kernel, trivial, trivial⟩, trivial⟩,
      by decide +kernel, trivial, by decide +kernel, ⟨by decide +kernel, trivial, trivial⟩, trivial⟩
  obtain ⟨hnodup, hrebuilt⟩ := writePaths_leavesBelow hentries hnamed
  exact ⟨hentries, hnamed, by decide +kernel, hnodup, hrebuilt⟩

end Entries

end InverseTemplate
