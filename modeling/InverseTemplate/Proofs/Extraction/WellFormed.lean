/-
# Extracted data holds no key twice

Every map that extraction builds is built by writes, and a write keeps the keys apart.  What comes
from outside are the props that extractors yield; if these are well formed, the data is, wherever
the props are placed.
-/
import InverseTemplate.Extraction
import InverseTemplate.Proofs.Value.Equal
import InverseTemplate.Proofs.Value.Written

namespace InverseTemplate

theorem exists_of_bind_eq_ok {α β : Type} {x : Except Failure α} {f : α → Except Failure β} {b : β}
    (h : x >>= f = .ok b) : ∃ a, x = .ok a ∧ f a = .ok b := by
  cases x with
  | error failure => simp [bind, Except.bind] at h
  | ok a => exact ⟨a, rfl, h⟩

namespace Value

/-! ## Keeping maps well formed -/

mutual

theorem wellFormed_plain : ∀ v : Value, v.WellFormed → v.plain.WellFormed
  | .null, _ => trivial
  | .bool _, _ => trivial
  | .int _, _ => trivial
  | .float _, _ => trivial
  | .text _, _ => trivial
  | .list items, h => wellFormedItems_plain items h
  | .tuple items, h => wellFormedItems_plain items h
  | .map entries, h => by
      refine ⟨?_, wellFormedEntries_plain entries h.2⟩
      unfold Entries.NodupKeys
      rw [Entries.keys_plainEntries]
      exact h.1
  | .other _, _ => trivial

theorem wellFormedItems_plain : ∀ items : List Value, WellFormedItems items →
    WellFormedItems (plainItems items)
  | [], _ => trivial
  | v :: rest, h => ⟨wellFormed_plain v h.1, wellFormedItems_plain rest h.2⟩

theorem wellFormedEntries_plain : ∀ entries : List (Text × Value), WellFormedEntries entries →
    WellFormedEntries (plainEntries entries)
  | [], _ => trivial
  | (_, v) :: rest, h => ⟨wellFormed_plain v h.1, wellFormedEntries_plain rest h.2⟩

end

theorem wellFormed_set {m : Entries Value} (hm : (Value.map m).WellFormed) (key : Text) {v : Value}
    (hv : v.WellFormed) : (Value.map (Entries.set m key v)).WellFormed := by
  refine ⟨Entries.NodupKeys.set hm.1 key v, ?_⟩
  have hvalues := hm.2
  clear hm
  induction m with
  | nil => exact ⟨hv, trivial⟩
  | cons entry rest ih =>
      obtain ⟨k, w⟩ := entry
      rw [Entries.set]
      split
      · exact ⟨hv, hvalues.2⟩
      · exact ⟨hvalues.1, ih hvalues.2⟩

theorem wellFormed_empty : (Value.map []).WellFormed := ⟨List.nodup_nil, trivial⟩

theorem wellFormed_setPath {m : Entries Value} (hm : (Value.map m).WellFormed) (keys : List Text)
    {v : Value} (hv : v.WellFormed) : (Value.map (Entries.setPath m keys v)).WellFormed := by
  induction keys generalizing m with
  | nil => exact hm
  | cons key rest ih =>
      cases rest with
      | nil => exact wellFormed_set hm key hv
      | cons next more =>
          rw [Entries.setPath_cons_cons]
          refine wellFormed_set hm key (ih ?_)
          unfold Entries.below
          split
          · next entries hget => exact wellFormed_of_get? hm.2 hget
          · exact wellFormed_empty

theorem wellFormed_writeTexts {m : Entries Value} (h : (Value.map m).WellFormed)
    (writes : List (List Text × Text)) : (Value.map (Entries.writeTexts m writes)).WellFormed := by
  induction writes generalizing m with
  | nil => exact h
  | cons write rest ih => exact ih (wellFormed_setPath h write.1 (v := .text write.2) trivial)

end Value

/-! ## Merging -/

namespace Merge

variable {policy : ArrayMerge} {selectors : Option (List Text)}

theorem wellFormedItems_combine {base extracted : List Value} (hbase : Value.WellFormedItems base)
    (hextracted : Value.WellFormedItems extracted) :
    Value.WellFormedItems (policy.combine base extracted) := by
  have h1 := Value.wellFormedItems_iff.mp (Value.wellFormedItems_plain base hbase)
  have h2 := Value.wellFormedItems_iff.mp (Value.wellFormedItems_plain extracted hextracted)
  rw [Value.wellFormedItems_iff]
  cases policy with
  | replace => exact h2
  | append => exact List.forall_mem_append.mpr ⟨h1, h2⟩
  | prepend => exact List.forall_mem_append.mpr ⟨h2, h1⟩

mutual

theorem wellFormed_mergeValue : ∀ (v : Value) (path : Text) (current : Option Value) (w : Value),
    (∀ c ∈ current, c.WellFormed) → v.WellFormed →
      mergeValue policy selectors path current v = some w → w.WellFormed
  | .map entries, path, current, w, hcurrent, hv, h => by
      unfold mergeValue at h
      split at h
      · next below =>
          cases h
          exact wellFormed_mergeEntries entries path below (hcurrent _ rfl) hv.2
      · dsimp only at h
        split at h
        · cases h
          exact wellFormed_mergeEntries entries path [] Value.wellFormed_empty hv.2
        · simp at h
  | .list items, path, current, w, hcurrent, hv, h => by
      rw [mergeValue] at h
      split at h
      · next base hbase =>
          cases h
          obtain ⟨c, hc, hitems⟩ := Option.bind_eq_some_iff.mp hbase
          exact wellFormedItems_combine (Value.wellFormed_items? (hcurrent c hc) hitems) hv
      · cases h
        exact Value.wellFormedItems_plain items hv
  | .tuple items, path, current, w, hcurrent, hv, h => by
      rw [mergeValue] at h
      split at h
      · next base hbase =>
          cases h
          obtain ⟨c, hc, hitems⟩ := Option.bind_eq_some_iff.mp hbase
          exact wellFormedItems_combine (Value.wellFormed_items? (hcurrent c hc) hitems) hv
      · cases h
        exact Value.wellFormedItems_plain items hv
  | .null, _, _, _, _, _, h => by cases h; trivial
  | .bool _, _, _, _, _, _, h => by cases h; trivial
  | .int _, _, _, _, _, _, h => by cases h; trivial
  | .float _, _, _, _, _, _, h => by cases h; trivial
  | .text _, _, _, _, _, _, h => by cases h; trivial
  | .other _, _, _, _, _, _, h => by cases h; trivial

theorem wellFormed_mergeEntries : ∀ (entries : List (Text × Value)) (above : Text)
    (target : Entries Value), (Value.map target).WellFormed → Value.WellFormedEntries entries →
      (Value.map (mergeEntries policy selectors above target entries)).WellFormed
  | [], _, _, htarget, _ => htarget
  | (key, v) :: rest, above, target, htarget, hentries => by
      rw [mergeEntries]
      split
      · split
        · next w hw =>
            refine wellFormed_mergeEntries rest above _ (Value.wellFormed_set htarget key ?_)
              hentries.2
            exact wellFormed_mergeValue v _ _ w
              (fun c hc => Value.wellFormed_of_get? htarget.2 hc) hentries.1 hw
        · exact wellFormed_mergeEntries rest above target htarget hentries.2
      · exact wellFormed_mergeEntries rest above target htarget hentries.2

end

theorem wellFormed_applyExtracted {record entries : Entries Value}
    (hrecord : (Value.map record).WellFormed) (hentries : (Value.map entries).WellFormed) :
    (applyExtracted policy selectors (.map record) (.map entries)).WellFormed :=
  wellFormed_mergeEntries entries [] _ (Value.wellFormed_plain _ hrecord) hentries.2

end Merge

/-! ## Placing props -/

namespace Props

theorem wellFormed_parts? {v : Value} (hv : v.WellFormed) {parts : List Value}
    (h : v.parts? = some parts) : ∀ part ∈ parts, part.WellFormed := by
  cases v with
  | list items =>
      cases h
      exact Value.wellFormedItems_iff.mp hv
  | tuple items =>
      cases h
      exact Value.wellFormedItems_iff.mp hv
  | text t =>
      cases h
      intro part hpart
      obtain ⟨c, -, rfl⟩ := List.mem_map.mp hpart
      trivial
  | map entries =>
      cases h
      intro part hpart
      obtain ⟨key, -, rfl⟩ := List.mem_map.mp hpart
      trivial
  | _ => simp [Value.parts?] at h

theorem wellFormed_withPairs {pairs : List Value} (hpairs : ∀ pair ∈ pairs, pair.WellFormed)
    {index : Nat} {props result : Entries Value} (hprops : (Value.map props).WellFormed)
    (h : withPairs index props pairs = .ok result) : (Value.map result).WellFormed := by
  induction pairs generalizing index props with
  | nil =>
      cases h
      exact hprops
  | cons pair rest ih =>
      obtain ⟨hpair, hrest⟩ := List.forall_mem_cons.mp hpairs
      rw [withPairs] at h
      split at h
      · simp at h
      · next key v hparts =>
          split at h
          · have hv := wellFormed_parts? hpair hparts v (by simp)
            exact ih hrest (Value.wellFormed_set hprops key.keyName hv) h
          · simp at h
      · simp at h

theorem wellFormed_all {yielded : Value} (hy : yielded.WellFormed) {props : Entries Value}
    (h : all yielded = .ok props) : (Value.map props).WellFormed := by
  unfold all at h
  split at h
  · cases h
    exact hy
  · split at h
    · next pairs hparts =>
        exact wellFormed_withPairs (wellFormed_parts? hy hparts) Value.wellFormed_empty h
    · simp at h

end Props

namespace Placement

theorem wellFormed_writeBound {yielded : Entries Value} (hy : Value.WellFormedEntries yielded)
    (bindings : List (Text × Text)) {data : Entries Value} (hdata : (Value.map data).WellFormed) :
    (Value.map (writeBound yielded data bindings)).WellFormed := by
  induction bindings generalizing data with
  | nil => exact hdata
  | cons binding rest ih =>
      obtain ⟨prop, bound⟩ := binding
      rw [writeBound]
      split
      · next v hv =>
          split
          · have hplain := Value.wellFormed_plain v (Value.wellFormed_of_get? hy hv)
            exact ih (Value.wellFormed_setPath hdata _ hplain)
          · exact ih hdata
      · exact ih hdata

theorem wellFormed_place {placement : Placement} {policy : ArrayMerge} {slot : Slot}
    {yielded : Value} (hy : yielded.WellFormed) {data result : Entries Value}
    (hdata : (Value.map data).WellFormed)
    (h : placement.place policy slot yielded data = .ok result) :
    (Value.map result).WellFormed := by
  have hplain : (Value.map (Value.plainEntries data)).WellFormed := Value.wellFormed_plain _ hdata
  unfold place at h
  cases placement with
  | bindings =>
      dsimp only at h
      split at h
      · cases h
        exact wellFormed_writeBound hy.2 _ hdata
      · obtain ⟨_, -, h⟩ := exists_of_bind_eq_ok h
        cases h
        exact hdata
  | root =>
      obtain ⟨props, hprops, h⟩ := exists_of_bind_eq_ok h
      cases h
      exact Merge.wellFormed_mergeEntries _ _ _ hplain (Props.wellFormed_all hy hprops).2
  | component =>
      obtain ⟨props, hprops, h⟩ := exists_of_bind_eq_ok h
      cases h
      exact Merge.wellFormed_mergeEntries _ _ _ hplain ⟨Props.wellFormed_all hy hprops, trivial⟩

end Placement

/-! ## Collecting -/

/-- What the extractors yield is well formed. -/
def Extractors.YieldWellFormed (extractors : Extractors) : Prop :=
  ∀ name extractor content v, Entries.get? extractors name = some extractor →
    extractor.extract content = .ok (some v) → v.WellFormed

namespace Collected

variable {settings : Settings} {options : ExtractOptions}

theorem wellFormed_addProps {placement : Placement} {start result : Collected} {slot : Slot}
    {yielded : Option Value} (hy : ∀ v ∈ yielded, v.WellFormed)
    (hstart : (Value.map start.data).WellFormed)
    (h : addProps settings placement start slot yielded = .ok result) :
    (Value.map result.data).WellFormed := by
  cases yielded with
  | none =>
      cases h
      exact hstart
  | some v =>
      obtain ⟨data, hdata, h⟩ := exists_of_bind_eq_ok h
      cases h
      exact Placement.wellFormed_place (hy v rfl) hstart hdata

theorem wellFormed_add (hoptions : Extractors.YieldWellFormed options.extractors)
    {start result : Collected} {c : Capture} (hstart : (Value.map start.data).WellFormed)
    (h : add settings options start c = .ok result) : (Value.map result.data).WellFormed := by
  unfold add at h
  dsimp only at h
  split at h
  · cases h
    exact Value.wellFormed_setPath hstart _ trivial
  · split at h
    · next extractor hget =>
        obtain ⟨yielded, hyielded, h⟩ := exists_of_bind_eq_ok h
        refine wellFormed_addProps (fun v hv => ?_) hstart h
        cases hv
        unfold Extractor.props at hyielded
        split at hyielded
        · exact hoptions _ extractor _ v hget hyielded
        · simp at hyielded
    · cases h
      exact hstart
  · cases h
    exact hstart

theorem wellFormed_ofCaptures (hoptions : Extractors.YieldWellFormed options.extractors)
    {captures : List Capture} {result : Collected}
    (h : ofCaptures settings options captures = .ok result) :
    (Value.map result.data).WellFormed := by
  have hfold : ∀ (captures : List Capture) (start : Collected),
      (Value.map start.data).WellFormed →
      captures.foldlM (add settings options) start = .ok result →
      (Value.map result.data).WellFormed := by
    intro captures
    induction captures with
    | nil =>
        intro start hstart hresult
        cases hresult
        exact hstart
    | cons c rest ih =>
        intro start hstart hresult
        rw [List.foldlM_cons] at hresult
        obtain ⟨next, hnext, hresult⟩ := exists_of_bind_eq_ok hresult
        exact ih next (wellFormed_add hoptions hstart hnext) hresult
  exact hfold captures empty Value.wellFormed_empty h

end Collected

theorem wellFormed_extract {settings : Settings} {options : ExtractOptions} {strict : Option Bool}
    {source rendered : Text} {e : Extraction}
    (hoptions : Extractors.YieldWellFormed options.extractors)
    (h : extract settings options strict source rendered = .ok e) :
    (Value.map e.data).WellFormed := by
  obtain ⟨e', he', h⟩ := exists_of_bind_eq_ok h
  have heq : e' = e := by
    unfold Extraction.demand at h
    split at h
    · simp at h
    · cases h
      rfl
  subst heq
  obtain ⟨collected, hcollected, he'⟩ := exists_of_bind_eq_ok he'
  cases he'
  exact Collected.wellFormed_ofCaptures hoptions hcollected

end InverseTemplate
