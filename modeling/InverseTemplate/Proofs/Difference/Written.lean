/-
# The difference against texts written path by path

Data that was written one text after another, each at a place where the record has a text, differs
from the record in these texts only.  On the way to each of the places both sides have maps, so
nothing is added; what changes is what was written and is not what the record has; and a leaf of the
record is removed exactly if nothing was written there.
-/
import InverseTemplate.Proofs.Difference.Empty
import InverseTemplate.Proofs.Difference.Places
import InverseTemplate.Proofs.Merge.Written

namespace InverseTemplate

namespace Value

theorem eq_nil_of_leavesBelow_eq_nil (path : Text) {entries : Entries Value}
    (h : leavesBelow path entries = []) : entries = [] := by
  cases entries with
  | nil => rfl
  | cons entry rest =>
      rw [leavesBelow, List.append_eq_nil_iff] at h
      exact absurd h.1 (leavesAt_ne_nil _ _)

end Value

/-- A text of a record and the one that takes its place. -/
structure Edit where
  path : Text
  before : Text
  after : Text

namespace Edit

/-- The new text, on its way of keys. -/
def write (edit : Edit) : List Text × Text := (Path.split edit.path, edit.after)

/-- The change that it is, if the texts differ. -/
def change (edit : Edit) : Text × Change := (edit.path, ⟨.text edit.before, .text edit.after⟩)

/-- The new texts alone. -/
def data (edits : List Edit) : Entries Value := Entries.writeTexts [] (edits.map write)

theorem wellFormed_data (edits : List Edit) : (Value.map (data edits)).WellFormed :=
  Value.wellFormed_writeTexts Value.wellFormed_empty _

/-- The record has the old texts, at places apart from each other. -/
structure Applicable (record : Entries Value) (edits : List Edit) : Prop where
  held : ∀ edit ∈ edits,
    Value.getPath? (.map record) (Path.split edit.path) = some (.text edit.before)
  apart : edits.Pairwise fun a b => Path.Apart (Path.split a.path) (Path.split b.path)

namespace Applicable

open Value

variable {record : Entries Value} {edits : List Edit}

theorem pairwise_writes (h : Applicable record edits) :
    (edits.map write).Pairwise fun a b => Path.Apart a.1 b.1 := List.pairwise_map.mpr h.apart

theorem getPath?_data (h : Applicable record edits) {edit : Edit} (hmem : edit ∈ edits) :
    getPath? (.map (data edits)) (Path.split edit.path) = some (.text edit.after) :=
  Entries.getPath?_writeTexts [] h.pairwise_writes (List.mem_map_of_mem (f := write) hmem)
    (List.splitOn_ne_nil '.' edit.path)

theorem exists_of_getPath? (h : Applicable record edits) {keys : List Text} (hkeys : keys ≠ [])
    {x : Value} (hx : getPath? (.map (data edits)) keys = some x) :
    ∃ edit ∈ edits, keys <+: Path.split edit.path := by
  refine Classical.byContradiction fun hnone => ?_
  have habove : ∀ edit ∈ edits, ¬ keys <+: Path.split edit.path := fun edit hmem hbegin =>
    hnone ⟨edit, hmem, hbegin⟩
  have hbelow : ∀ edit ∈ edits, ¬ Path.split edit.path <+: keys := by
    intro edit hmem hbegin
    have heq := eq_of_isPrefix_of_isLeaf hbegin (h.getPath?_data hmem) (isLeaf_of_not_map rfl) hx
    exact habove edit hmem (heq ▸ List.prefix_refl _)
  rw [data, Entries.getPath?_writeTexts_of_apart [] (List.forall_mem_map.mpr fun edit hmem =>
    ⟨hbelow edit hmem, habove edit hmem⟩)] at hx
  cases keys with
  | nil => exact hkeys rfl
  | cons key more => simp [getPath?] at hx

theorem eq_of_path_eq (h : Applicable record edits) {a b : Edit} (ha : a ∈ edits) (hb : b ∈ edits)
    (hpath : a.path = b.path) : a = b := by
  have hbefore := h.held a ha
  have hafter := h.getPath?_data ha
  rw [hpath, h.held b hb] at hbefore
  rw [hpath, h.getPath?_data hb] at hafter
  obtain ⟨path, before, after⟩ := a
  cases hbefore
  cases hafter
  cases hpath
  rfl

theorem pairwise_paths (h : Applicable record edits) :
    edits.Pairwise fun a b => a.path ≠ b.path := by
  refine h.apart.imp ?_
  intro a b hapart heq
  exact hapart.1 (heq ▸ List.prefix_refl _)

theorem foldl_join_split (h : Applicable record edits) (hnamed : (Value.map record).Named)
    {edit : Edit} (hmem : edit ∈ edits) : (Path.split edit.path).foldl Path.join [] = edit.path :=
  Path.foldl_join_split fun key hkey => (hnamed.isName_of_getPath? (h.held edit hmem) key hkey).1

end Applicable

end Edit

namespace Difference

open Value

variable {record : Entries Value} {edits : List Edit}

theorem changedAt_data_iff (h : Edit.Applicable record edits) (hnamed : (Value.map record).Named)
    {change : Text × Change} :
    (∃ keys, ChangedAt (.map record) (.map (Edit.data edits)) [] change keys) ↔
      ∃ edit ∈ edits, edit.before ≠ edit.after ∧ edit.change = change := by
  constructor
  · rintro ⟨keys, o, n, ho, hn, hmaps, hne, rfl⟩
    have hkeys : keys ≠ [] := by
      rintro rfl
      cases ho
      cases hn
      exact hmaps ⟨rfl, rfl⟩
    obtain ⟨edit, hmem, hbegin⟩ := h.exists_of_getPath? hkeys hn
    have heq : keys = Path.split edit.path := by
      refine Classical.byContradiction fun hproper => hmaps ?_
      obtain ⟨es, hes⟩ := exists_map_of_isPrefix hbegin hproper (h.held edit hmem)
      obtain ⟨es', hes'⟩ := exists_map_of_isPrefix hbegin hproper (h.getPath?_data hmem)
      rw [Option.some.inj (ho.symm.trans hes), Option.some.inj (hn.symm.trans hes')]
      exact ⟨rfl, rfl⟩
    subst heq
    obtain rfl := Option.some.inj (ho.symm.trans (h.held edit hmem))
    obtain rfl := Option.some.inj (hn.symm.trans (h.getPath?_data hmem))
    refine ⟨edit, hmem, fun heq => ?_, ?_⟩
    · rw [heq, equal_refl (.text edit.after) trivial] at hne
      exact absurd hne (by simp)
    · rw [h.foldl_join_split hnamed hmem]
      rfl
  · rintro ⟨edit, hmem, hne, rfl⟩
    refine ⟨Path.split edit.path, _, _, h.held edit hmem, h.getPath?_data hmem, ?_, ?_, ?_⟩
    · simp [isMap, entries?]
    · simp [Value.equal, hne]
    · rw [h.foldl_join_split hnamed hmem]
      rfl

theorem not_addedAt_data (h : Edit.Applicable record edits) (p : Text) (x : Value)
    (keys : List Text) : ¬ AddedAt (.map record) (.map (Edit.data edits)) [] p x keys := by
  rintro ⟨n, ⟨hget, -⟩, -, hlost⟩
  have hkeys : keys ≠ [] := by
    rintro rfl
    exact not_lost_nil _ hlost
  obtain ⟨edit, hmem, hbegin⟩ := h.exists_of_getPath? hkeys hget
  exact not_lost_of_isPrefix hbegin (h.held edit hmem) hlost

/-- The way to a leaf of the record leaves the maps of the data exactly if the leaf is not
edited. -/
theorem lost_data_iff (h : Edit.Applicable record edits) {keys : List Text} (hkeys : keys ≠ [])
    {x : Value} (hx : getPath? (.map record) keys = some x) (hleaf : x.IsLeaf) :
    Lost (.map (Edit.data edits)) keys ↔ ∀ edit ∈ edits, keys ≠ Path.split edit.path := by
  constructor
  · rintro hlost edit hmem rfl
    exact not_lost_of_isPrefix (List.prefix_refl _) (h.getPath?_data hmem) hlost
  · refine fun hother => Classical.byContradiction fun hlost => ?_
    obtain ⟨p, y, hp, hy, hend⟩ := exists_of_not_lost hlost
    have hne : p ≠ [] := by
      rintro rfl
      cases hy
      exact hend.elim (fun h => hkeys h.symm) (by simp [isMap, entries?])
    obtain ⟨edit, hmem, hbegin⟩ := h.exists_of_getPath? hne hy
    rcases hend with rfl | hmap
    · exact hother edit hmem (eq_of_isPrefix_of_isLeaf hbegin hx hleaf (h.held edit hmem))
    · -- the data goes no further than the text of an edit, and the record neither
      obtain rfl := eq_of_isPrefix_of_isLeaf hbegin hy (isLeaf_of_not_map hmap)
        (h.getPath?_data hmem)
      have heq := eq_of_isPrefix_of_isLeaf hp (h.held edit hmem) (isLeaf_of_not_map rfl) hx
      exact hother edit hmem heq.symm

theorem removedAt_data_iff (h : Edit.Applicable record edits) (hnamed : (Value.map record).Named)
    (hrecord : (Value.map record).WellFormed) {p : Text} :
    (∃ keys, RemovedAt (.map record) (.map (Edit.data edits)) [] p keys) ↔
      p ∈ (leavesBelow [] record).map Prod.fst ∧ p ∉ edits.map Edit.path := by
  constructor
  · rintro ⟨keys, ⟨x, hleaf⟩, hlost⟩
    have hkeys : keys ≠ [] := by
      rintro rfl
      exact not_lost_nil _ hlost
    have hlisted := (mem_leavesBelow_iff hrecord).mpr ⟨keys, hkeys, hleaf⟩
    refine ⟨List.mem_map_of_mem (f := Prod.fst) hlisted, ?_⟩
    obtain ⟨hx, hleaf, rfl⟩ := hleaf
    intro hmem
    obtain ⟨edit, hmem, heq⟩ := List.mem_map.mp hmem
    refine (lost_data_iff h hkeys hx hleaf).mp hlost edit hmem ?_
    rw [heq, hnamed.split_foldl_join hkeys hx]
  · rintro ⟨hlisted, hother⟩
    obtain ⟨⟨p, x⟩, hmem, rfl⟩ := List.mem_map.mp hlisted
    obtain ⟨keys, hkeys, hat⟩ := (mem_leavesBelow_iff hrecord).mp hmem
    refine ⟨keys, ⟨x, hat⟩, ?_⟩
    obtain ⟨hx, hleaf, rfl⟩ := hat
    refine (lost_data_iff h hkeys hx hleaf).mpr ?_
    rintro edit hedit rfl
    rw [h.foldl_join_split hnamed hedit] at hother
    exact hother (List.mem_map_of_mem hedit)

theorem mem_modified_data_iff (h : Edit.Applicable record edits)
    (hnamed : (Value.map record).Named) {change : Text × Change} :
    change ∈ (compareMaps none [] record (Edit.data edits)).modified ↔
      change ∈ (edits.filter fun edit => edit.before ≠ edit.after).map Edit.change := by
  rw [mem_modified_compareMaps (Edit.wellFormed_data edits), changedAt_data_iff h hnamed]
  simp only [List.mem_map, List.mem_filter, decide_eq_true_eq, and_assoc]

theorem added_between_data (h : Edit.Applicable record edits) :
    (between none (.map record) (.map (Edit.data edits))).added = [] := by
  rw [between_map_map]
  refine eq_nil_of_leavesBelow_eq_nil [] (List.eq_nil_iff_forall_not_mem.mpr ?_)
  rintro ⟨p, x⟩ hmem
  obtain ⟨keys, hadded⟩ := (mem_added_compareMaps (Edit.wellFormed_data edits)).mp hmem
  exact not_addedAt_data h p x keys hadded

/-- The changes are the edits that change something, each once. -/
theorem modified_between_data_perm (h : Edit.Applicable record edits)
    (hnamed : (Value.map record).Named) :
    (between none (.map record) (.map (Edit.data edits))).modified.Perm
      ((edits.filter fun edit => edit.before ≠ edit.after).map Edit.change) := by
  have hone : ∀ a ∈ (compareMaps none [] record (Edit.data edits)).modified,
      ∀ b ∈ (compareMaps none [] record (Edit.data edits)).modified, a.1 = b.1 → a = b := by
    intro a ha b hb
    rw [mem_modified_data_iff h hnamed] at ha hb
    obtain ⟨edit, hedit, rfl⟩ := List.mem_map.mp ha
    obtain ⟨other, hother, rfl⟩ := List.mem_map.mp hb
    exact fun heq => congrArg Edit.change
      (h.eq_of_path_eq (List.mem_filter.mp hedit).1 (List.mem_filter.mp hother).1 heq)
  have hedits : ((edits.filter fun edit => edit.before ≠ edit.after).map Edit.change).Nodup :=
    List.pairwise_map.mpr ((h.pairwise_paths.filter _).imp fun hne heq =>
      hne (congrArg Prod.fst heq))
  rw [between_map_map]
  refine (List.perm_ext_iff_of_nodup
    (Entries.nodup_of_nodupKeys (Entries.nodupKeys_ofWrites _)) hedits).mpr fun change => ?_
  exact (Entries.mem_ofWrites_iff hone).trans (mem_modified_data_iff h hnamed)

/-- The removed paths are those of the leaves of the record that are not edited, each once. -/
theorem removed_between_data_perm (h : Edit.Applicable record edits)
    (hnamed : (Value.map record).Named) (hrecord : (Value.map record).WellFormed) :
    (between none (.map record) (.map (Edit.data edits))).removed.Perm
      (((leavesBelow [] record).map Prod.fst).filter fun p => p ∉ edits.map Edit.path) := by
  have hdata := Edit.wellFormed_data edits
  refine (List.perm_ext_iff_of_nodup (nodup_removed_between hrecord hnamed hdata)
    ((nodup_leavesBelow hrecord hnamed).filter _)).mpr fun p => ?_
  rw [between_map_map, List.mem_filter, decide_eq_true_eq]
  exact (mem_removed_compareMaps hrecord hdata).trans (removedAt_data_iff h hnamed hrecord)

end Difference

end InverseTemplate
