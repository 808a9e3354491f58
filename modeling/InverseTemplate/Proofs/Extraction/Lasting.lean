/-
# What extracted data keeps

Extraction writes one value after another, and a later write may take the place of a whole map or
put a map in the place of a text.  What is left is what was not written over: a text is a leaf of
the data exactly if it was written and no later write goes to its place, above it or below it
(`leaf_writeTexts_iff`).  The step behind it is one write: it leaves one leaf at its own place, and
elsewhere the leaves that it does not meet.

Without components these writes are the values of the slots for plain paths, in the order of the
template, and the paths of such slots tell their ways.
-/
import InverseTemplate.Proofs.Capture.Tiling
import InverseTemplate.Proofs.Extraction.Plain
import InverseTemplate.Proofs.Extraction.WellFormed
import InverseTemplate.Proofs.Value.Place

namespace InverseTemplate

/-! ## The last of many writes -/

/-- The text is written at the end of the way, and no later write meets the way. -/
def LastWritten (writes : List (List Text × Text)) (way : List Text) (t : Text) : Prop :=
  ∃ before after, writes = before ++ (way, t) :: after ∧ ∀ write ∈ after, Path.Apart write.1 way

theorem not_lastWritten_nil {way : List Text} {t : Text} : ¬ LastWritten [] way t := by
  rintro ⟨before, after, h, -⟩
  simp at h

theorem lastWritten_cons_iff {first : List Text × Text} {rest : List (List Text × Text)}
    {way : List Text} {t : Text} :
    LastWritten (first :: rest) way t ↔
      LastWritten rest way t ∨ (first = (way, t) ∧ ∀ write ∈ rest, Path.Apart write.1 way) := by
  constructor
  · rintro ⟨before, after, h, hafter⟩
    cases before with
    | nil =>
        obtain ⟨rfl, rfl⟩ := List.cons.inj h
        exact .inr ⟨rfl, hafter⟩
    | cons write before =>
        obtain ⟨-, rfl⟩ := List.cons.inj h
        exact .inl ⟨before, after, rfl, hafter⟩
  · rintro (⟨before, after, rfl, hafter⟩ | ⟨rfl, hrest⟩)
    · exact ⟨first :: before, after, rfl, hafter⟩
    · exact ⟨[], rest, rfl, hrest⟩

namespace Entries

open Value

theorem leaf_setPath_iff {m : Entries Value} {ks way : List Text} (hne : ks ≠ []) {t : Text}
    {x : Value} :
    (getPath? (.map (setPath m ks (.text t))) way = some x ∧ x.IsLeaf) ↔
      (ks = way ∧ .text t = x) ∨
        (Path.Apart ks way ∧ getPath? (.map m) way = some x ∧ x.IsLeaf) := by
  have hself := getPath?_setPath_self m hne (.text t)
  constructor
  · rintro ⟨hx, hleaf⟩
    by_cases hway : ks = way
    · subst hway
      exact .inl ⟨rfl, Option.some.inj (hself.symm.trans hx)⟩
    · -- of two leaves neither is on the way to the other
      have hapart : Path.Apart ks way :=
        ⟨fun h => hway (eq_of_isPrefix_of_isLeaf h hself (isLeaf_of_not_map rfl) hx),
          fun h => hway (eq_of_isPrefix_of_isLeaf h hx hleaf hself).symm⟩
      rw [getPath?_setPath_of_apart m hapart] at hx
      exact .inr ⟨hapart, hx, hleaf⟩
  · rintro (⟨rfl, rfl⟩ | ⟨hapart, hx, hleaf⟩)
    · exact ⟨hself, isLeaf_of_not_map rfl⟩
    · rw [getPath?_setPath_of_apart m hapart]
      exact ⟨hx, hleaf⟩

/-- What is left of many writes, and of what was there before, is what no later one meets. -/
theorem leaf_writeTexts_iff {m : Entries Value} {writes : List (List Text × Text)}
    (hne : ∀ write ∈ writes, write.1 ≠ []) {way : List Text} {x : Value} :
    (getPath? (.map (writeTexts m writes)) way = some x ∧ x.IsLeaf) ↔
      (∃ t, LastWritten writes way t ∧ .text t = x) ∨
        ((∀ write ∈ writes, Path.Apart write.1 way) ∧
          getPath? (.map m) way = some x ∧ x.IsLeaf) := by
  induction writes generalizing m with
  | nil => simp [writeTexts, not_lastWritten_nil]
  | cons first rest ih =>
      obtain ⟨hfirst, hrest⟩ := List.forall_mem_cons.mp hne
      rw [writeTexts, List.foldl_cons, ← writeTexts, ih hrest, leaf_setPath_iff hfirst]
      simp only [lastWritten_cons_iff, List.forall_mem_cons]
      constructor
      · rintro (⟨t, hlast, rfl⟩ | ⟨hapart, ⟨rfl, rfl⟩ | ⟨hfirst, hm⟩⟩)
        · exact .inl ⟨t, .inl hlast, rfl⟩
        · exact .inl ⟨first.2, .inr ⟨rfl, hapart⟩, rfl⟩
        · exact .inr ⟨⟨hfirst, hapart⟩, hm⟩
      · rintro (⟨t, hlast | ⟨rfl, hapart⟩, rfl⟩ | ⟨⟨hfirst, hapart⟩, hm⟩)
        · exact .inl ⟨t, hlast, rfl⟩
        · exact .inr ⟨hapart, .inl ⟨rfl, rfl⟩⟩
        · exact .inr ⟨hapart, .inr ⟨hfirst, hm⟩⟩

end Entries

theorem lastWritten_map_split_iff {writes : List (Text × Text)} {way : List Text} {t : Text} :
    LastWritten (writes.map fun write => (Path.split write.1, write.2)) way t ↔
      ∃ before p after, writes = before ++ (p, t) :: after ∧ Path.split p = way ∧
        ∀ write ∈ after, write.1 ≠ p ∧ Path.isBelow write.1 p = false ∧
          Path.isBelow p write.1 = false := by
  constructor
  · rintro ⟨before, after, h, hafter⟩
    obtain ⟨before, rest, rfl, -, hrest⟩ := List.map_eq_append_iff.mp h
    obtain ⟨⟨p, t⟩, after, rfl, heq, rfl⟩ := List.map_eq_cons_iff.mp hrest
    cases heq
    exact ⟨before, p, after, rfl, rfl, fun write hwrite =>
      Path.apart_split_iff.mp (List.forall_mem_map.mp hafter write hwrite)⟩
  · rintro ⟨before, p, after, rfl, rfl, hafter⟩
    refine ⟨_, _, List.map_append.trans (congrArg _ List.map_cons), ?_⟩
    exact List.forall_mem_map.mpr fun write hwrite =>
      Path.apart_split_iff.mpr (hafter write hwrite)

theorem mem_leavesBelow_writeTexts_iff {writes : List (Text × Text)}
    (hkeys : ∀ write ∈ writes, ∀ key ∈ Path.split write.1, key ≠ []) {p : Text} {x : Value} :
    (p, x) ∈ Value.leavesBelow [] (Entries.writeTexts []
        (writes.map fun write => (Path.split write.1, write.2))) ↔
      ∃ before t after, writes = before ++ (p, t) :: after ∧ x = .text t ∧
        ∀ write ∈ after, write.1 ≠ p ∧ Path.isBelow write.1 p = false ∧
          Path.isBelow p write.1 = false := by
  have hways : ∀ write ∈ writes.map fun write => (Path.split write.1, write.2), write.1 ≠ [] :=
    List.forall_mem_map.mpr fun write _ => List.splitOn_ne_nil '.' write.1
  rw [Value.mem_leavesBelow_iff (Value.wellFormed_writeTexts Value.wellFormed_empty _)]
  constructor
  · rintro ⟨way, hne, hx, hleaf, rfl⟩
    rcases (Entries.leaf_writeTexts_iff hways).mp ⟨hx, hleaf⟩ with ⟨t, hlast, rfl⟩ | ⟨-, hnil, -⟩
    · obtain ⟨before, p, after, rfl, rfl, hafter⟩ := lastWritten_map_split_iff.mp hlast
      rw [Path.foldl_join_split (hkeys (p, t) (by simp))]
      exact ⟨before, t, after, rfl, rfl, hafter⟩
    · obtain ⟨key, more, rfl⟩ := List.exists_cons_of_ne_nil hne
      simp [Value.getPath?] at hnil
  · rintro ⟨before, t, after, rfl, rfl, hafter⟩
    obtain ⟨hx, hleaf⟩ := (Entries.leaf_writeTexts_iff (m := []) hways).mpr <| .inl
      ⟨t, lastWritten_map_split_iff.mpr ⟨before, p, after, rfl, rfl, hafter⟩, rfl⟩
    exact ⟨Path.split p, List.splitOn_ne_nil '.' p, hx, hleaf,
      (Path.foldl_join_split (hkeys (p, t) (by simp))).symm⟩

/-! ## The values of the slots -/

/-- The path of a slot and the value found for it, if it is a plain path and has a value. -/
def Capture.pathValue? (c : Capture) : Option (Text × Text) :=
  match c.slot.content, c.value? with
  | .expression path, some value => some (path, value)
  | _, _ => none

namespace Capture

variable {c : Capture}

theorem pathValue?_eq_some_iff {p v : Text} :
    c.pathValue? = some (p, v) ↔ c.slot.content = .expression p ∧ c.value? = some v := by
  unfold pathValue?
  cases hcontent : c.slot.content <;> cases hv : c.value? <;> simp

theorem write?_eq_map : c.write? = c.pathValue?.map fun place => (Path.split place.1, place.2) := by
  unfold write? pathValue?
  cases c.slot.content <;> cases c.value? <;> rfl

theorem exists_raw_of_value? {v : Text} (h : c.value? = some v) :
    ∃ passage, c.passage = some passage ∧ v = Text.strip passage.raw ∧ v ≠ [] := by
  unfold value? raw? at h
  cases hpassage : c.passage with
  | none => simp [hpassage] at h
  | some passage =>
      simp only [hpassage, Option.map_some, Option.ite_none_left_eq_some] at h
      obtain ⟨hne, hv⟩ := h
      obtain rfl := Option.some.inj hv
      exact ⟨passage, rfl, rfl, hne⟩

end Capture

/-- The paths and values of the slots for plain paths that have one, in their order. -/
def pathValues (captures : List Capture) : List (Text × Text) :=
  captures.filterMap Capture.pathValue?

section PathValues

variable {captures : List Capture}

theorem exists_of_mem_pathValues {p v : Text} (h : (p, v) ∈ pathValues captures) :
    ∃ c ∈ captures, c.slot.content = .expression p ∧ c.value? = some v := by
  obtain ⟨c, hc, hpair⟩ := List.mem_filterMap.mp h
  exact ⟨c, hc, Capture.pathValue?_eq_some_iff.mp hpair⟩

theorem filterMap_write?_eq_map : captures.filterMap Capture.write? =
    (pathValues captures).map fun place => (Path.split place.1, place.2) := by
  rw [pathValues, List.map_filterMap]
  exact congrArg (captures.filterMap ·) (funext fun c => c.write?_eq_map)

end PathValues

theorem Text.slice_isInfix (t : Text) (start stop : Nat) : slice t start stop <:+: t :=
  (List.take_prefix _ _).isInfix.trans (List.drop_suffix _ _).isInfix

theorem Text.strip_isInfix {t : Text} (h : strip t ≠ []) : strip t <:+: t := by
  refine ⟨leadingBlanks t, trailingBlanks t, ?_⟩
  rw [List.append_assoc]
  exact leadingBlanks_append_strip_append_trailingBlanks h

theorem Captures.value_of_mem_find {settings : Settings} {template : Template} {t : Text}
    {c : Capture} (hc : c ∈ (find settings template t).captures) {v : Text}
    (h : c.value? = some v) : v ≠ [] ∧ Text.strip v = v ∧ v <:+: t := by
  obtain ⟨passage, hpassage, rfl, hne⟩ := Capture.exists_raw_of_value? h
  have hcursor := Scan.cursor_opening_le (fences t) t template.opening
  have hraw : passage.raw = t.slice passage.span.start passage.span.stop :=
    ((ofParts_ordered hcursor).1 c hc passage hpassage).2.2.2
  refine ⟨hne, Text.strip_strip _, (Text.strip_isInfix hne).trans ?_⟩
  rw [hraw]
  exact Text.slice_isInfix ..

theorem Captures.ne_nil_of_mem_split {settings : Settings} {source rendered : Text} :
    ∀ place ∈ pathValues (find settings (Template.ofText source) rendered).captures,
      ∀ key ∈ Path.split place.1, key ≠ [] := by
  intro place hplace key hkey
  obtain ⟨c, hc, hcontent, -⟩ := exists_of_mem_pathValues hplace
  have hnames := Template.namesPath_of_mem_slots (slot_mem_of_mem_find hc)
  exact hnames.ne_nil_of_mem_split hcontent hkey

/-- Without components, the leaves of the data are the values of the slots for plain paths that no
later one meets, each of them a trimmed part of the rendered text. -/
theorem leaves_extract (settings : Settings) (options : ExtractOptions) (strict : Option Bool)
    {source rendered : Text}
    (hslots : ∀ slot ∈ (Template.ofText source).slots, slot.kind ≠ .component) :
    let captures := (Captures.find settings (Template.ofText source) rendered).captures
    let values := pathValues captures
    captures.map Capture.slot = (Template.ofText source).slots ∧
    ∃ e : Extraction,
      extract settings options strict source rendered = e.demand (strict.getD settings.strict) ∧
      (∀ p x, (p, x) ∈ Value.leavesBelow [] e.data ↔
        ∃ before v after, values = before ++ (p, v) :: after ∧ x = .text v ∧
          ∀ later ∈ after, later.1 ≠ p ∧ Path.isBelow later.1 p = false ∧
            Path.isBelow p later.1 = false) ∧
      (∀ place ∈ values, place.2 ≠ [] ∧ Text.strip place.2 = place.2 ∧ place.2 <:+: rendered) ∧
      ∀ p x, (p, x) ∈ Value.leavesBelow [] e.data →
        ∃ c ∈ captures, c.slot.content = .expression p ∧ c.value?.map .text = some x := by
  intro captures values
  obtain ⟨e, hextract, hdata, -⟩ :=
    exists_extract_of_ne_component settings options strict hslots rfl
  rw [filterMap_write?_eq_map] at hdata
  have hleaves : ∀ p x, (p, x) ∈ Value.leavesBelow [] e.data ↔
      ∃ before v after, values = before ++ (p, v) :: after ∧ x = .text v ∧
        ∀ later ∈ after, later.1 ≠ p ∧ Path.isBelow later.1 p = false ∧
          Path.isBelow p later.1 = false := fun p x => by
    rw [hdata]
    exact mem_leavesBelow_writeTexts_iff Captures.ne_nil_of_mem_split
  refine ⟨map_slot_find .., e, hextract, hleaves, fun place hplace => ?_, fun p x hleaf => ?_⟩
  · obtain ⟨c, hc, -, hv⟩ := exists_of_mem_pathValues hplace
    exact Captures.value_of_mem_find hc hv
  · obtain ⟨before, v, after, hvalues, rfl, -⟩ := (hleaves p x).mp hleaf
    have hmem : (p, v) ∈ values := hvalues ▸ List.mem_append_right _ (List.mem_cons_self ..)
    obtain ⟨c, hc, hcontent, hv⟩ := exists_of_mem_pathValues hmem
    exact ⟨c, hc, hcontent, by rw [hv, Option.map_some]⟩

/-- The first value is written over by one above it, which stays; a conditional and a slot that is
cleared contribute nothing. -/
theorem leaves_extract_above :
    let source := text "\x7ba.x\x7d, \x7bb.c\x7d; \x7ba\x7d: \x7bd ? e : f\x7d! \x7bb.d\x7d"
    let rendered := text "1, 2; 3: 4! "
    let captures := (Captures.find {} (Template.ofText source) rendered).captures
    (∀ slot ∈ (Template.ofText source).slots, slot.kind ≠ .component) ∧
      pathValues captures =
        [(text "a.x", text "1"), (text "b.c", text "2"), (text "a", text "3")] ∧
      ∃ e : Extraction, extract {} {} none source rendered = e.demand false ∧
        (text "b.c", .text (text "2")) ∈ Value.leavesBelow [] e.data ∧
        (text "a", .text (text "3")) ∈ Value.leavesBelow [] e.data ∧
        (text "a.x", .text (text "1")) ∉ Value.leavesBelow [] e.data := by
  intro source rendered captures
  have hslots : ∀ slot ∈ (Template.ofText source).slots, slot.kind ≠ .component := by
    decide +kernel
  have hvalues : pathValues captures =
      [(text "a.x", text "1"), (text "b.c", text "2"), (text "a", text "3")] := by decide +kernel
  obtain ⟨-, e, hextract, hleaves, -⟩ := @leaves_extract {} {} none source rendered hslots
  rw [show pathValues (Captures.find {} (Template.ofText source) rendered).captures = _
    from hvalues] at hleaves
  refine ⟨hslots, hvalues, e, hextract, ?_, ?_, fun hleaf => ?_⟩
  · exact (hleaves _ _).mpr ⟨[(text "a.x", text "1")], text "2", [(text "a", text "3")], rfl, rfl,
      by decide +kernel⟩
  · exact (hleaves _ _).mpr ⟨[(text "a.x", text "1"), (text "b.c", text "2")], text "3", [], rfl,
      rfl, List.forall_mem_nil _⟩
  · obtain ⟨before, v, after, hsplit, -, hafter⟩ := (hleaves _ _).mp hleaf
    cases before with
    | nil =>
        obtain ⟨-, rfl⟩ := List.cons.inj hsplit
        have hlater := hafter (text "a", text "3") (by decide +kernel)
        exact absurd hlater.2.2 (by decide +kernel)
    | cons first before =>
        have hmem : (text "a.x", v) ∈ [(text "b.c", text "2"), (text "a", text "3")] :=
          (List.cons.inj hsplit).2 ▸ List.mem_append_right _ (List.mem_cons_self ..)
        have hpath : text "a.x" ∈ [text "b.c", text "a"] := List.mem_map_of_mem (f := Prod.fst) hmem
        exact absurd hpath (by decide +kernel)

end InverseTemplate
