/-
# Rendering what was read

Items that were read from a content are rendered and read again.  This never fails, and it gives the
same items and columns exactly if the format shows all of what was read (`equal_read_rendered_iff`).

A list shows one text for each item, which is read as its name and its id.  A table shows the
columns; the id of an item is shown by a column of its own or by its slug, and otherwise it is
read as the number of its row.  A bar in a cell ends the cell, and blanks at its ends are taken
for blanks around it.

Nothing is shown of columns without items.
-/
import InverseTemplate.Proofs.Entity.Read

namespace InverseTemplate

theorem forall_filterMap_iff {α β : Type} {f : α → Option β} {r : β → α → Prop} {l : List α} :
    ((l.filterMap f).length = l.length ∧ ∀ (i : Nat) b a, (l.filterMap f)[i]? = some b →
        l[i]? = some a → r b a) ↔ ∀ a ∈ l, ∃ b, f a = some b ∧ r b a := by
  induction l with
  | nil => simp
  | cons a l ih =>
      have hle := List.length_filterMap_le f l
      rw [List.forall_mem_cons, ← ih]
      cases hf : f a with
      | none =>
          rw [List.filterMap_cons_none hf, List.length_cons]
          refine ⟨fun h => absurd h.1 (by omega), ?_⟩
          rintro ⟨⟨b, hb, -⟩, -⟩
          cases hb
      | some b =>
          rw [List.filterMap_cons_some hf, List.length_cons, List.length_cons,
            Nat.add_right_cancel_iff]
          constructor
          · rintro ⟨hlen, hall⟩
            exact ⟨⟨b, rfl, hall 0 b a rfl rfl⟩, hlen, fun i => hall (i + 1)⟩
          · rintro ⟨⟨b', hb', hr⟩, hlen, hall⟩
            cases hb'
            refine ⟨hlen, fun i => ?_⟩
            cases i with
            | zero =>
                intro x y hx hy
                cases hx
                cases hy
                exact hr
            | succ i => exact hall i

theorem Text.length_strip_le (t : Text) : (strip t).length ≤ t.length :=
  Nat.le_trans (stripRight_isPrefix (stripLeft t)).length_le (List.dropWhile_sublist _).length_le

namespace Entity

variable {type : Text} {columns : List Text} {fields : Entries Text} {items : List (Entries Text)}

/-- The id that is read from a table without a column for it: the slug, or else the row's number. -/
def slugId (fields : Entries Text) (index : Nat) : Text :=
  (filled? fields (text "slug")).getD (Text.ofNat index)

/-! ## Tables -/

/-- The fields that are read from the row of an item. -/
def reread (type : Text) (columns : List Text) (fields : Entries Text) (index : Nat) :
    Entries Text :=
  rowFields type (Table.row columns (Table.cells (Table.line (columns.map (shown fields))))) index

theorem rowId_shown (h : Regular type columns fields) (index : Nat) :
    rowId (Table.row columns (columns.map (shown fields))) index =
      if idKey ∈ columns then shown fields idKey else slugId fields index := by
  obtain ⟨id, hid, hne⟩ := h.id
  have hplain : filled? (Table.row columns (columns.map (shown fields))) (text "id") = none := by
    have hnothing : shown fields (text "id") = [] := by
      rw [shown, h.noId]
      rfl
    rw [filled?, Table.get?_row_map, hnothing]
    split <;> simp_all
  have hslug : filled? (Table.row columns (columns.map (shown fields))) (text "slug") =
      filled? fields (text "slug") := by
    have hget : Entries.get? (Table.row columns (columns.map (shown fields))) (text "slug") =
        Entries.get? fields (text "slug") := by
      rw [Table.get?_row_map]
      split
      · next hmem => rw [h.get?_eq_shown (by decide) (by decide) hmem]
      · next hmem => rw [h.get?_eq_none (by decide) (by decide) hmem]
    rw [filled?, hget, filled?]
  rw [rowId_eq, hplain, hslug, Option.none_or]
  split
  · next hmem =>
      have hown : filled? (Table.row columns (columns.map (shown fields))) idKey =
          some (shown fields idKey) := by
        rw [filled?_eq_some_iff, Table.get?_row_map, if_pos hmem, shown, hid]
        exact ⟨rfl, hne⟩
      rw [hown]
      rfl
  · next hmem =>
      have hown : filled? (Table.row columns (columns.map (shown fields))) idKey = none := by
        rw [filled?, Table.get?_row_map, if_neg hmem]
      rw [hown, Option.none_or, slugId]

theorem clean_ofNat (n : Nat) : Table.Clean (Text.ofNat n) := by
  have hdigit : ∀ c ∈ Text.ofNat n, 48 ≤ c.toNat ∧ c.toNat ≤ 57 := fun c hc => by
    have h := Text.isDigit_of_mem_ofNat hc
    simp only [Char.isDigit, Bool.and_eq_true, decide_eq_true_eq, ge_iff_le] at h
    exact ⟨UInt32.le_iff_toNat_le.mp h.1, UInt32.le_iff_toNat_le.mp h.2⟩
  refine ⟨fun hbar => absurd (hdigit _ hbar) (by decide),
    Text.strip_eq_self_of_forall fun c hc => ?_⟩
  have := hdigit c hc
  simp only [Text.isBlank, Bool.or_eq_false_iff, Bool.and_eq_false_iff, decide_eq_false_iff_not]
  omega

theorem clean_shown_of_reread {index : Nat}
    (hsame : ∀ key, Entries.get? (reread type columns fields index) key = Entries.get? fields key)
    {c : Text} (hc : c ∈ columns) : Table.Clean (shown fields c) := by
  have hcell : ∀ key cell, Entries.get? (Table.row columns
      (Table.cells (Table.line (columns.map (shown fields))))) key = some cell →
        Table.Clean cell := by
    intro key cell hcell
    rcases Table.mem_of_get?_row hcell with hmem | rfl
    · exact Table.clean_of_mem_cells hmem
    · exact Table.clean_nil
  have hget := hsame c
  rw [reread, get?_rowFields (Table.nodupKeys_row _ _)] at hget
  rw [shown, ← hget]
  split
  · exact rowId_induction hcell (clean_ofNat index)
  · split
    · exact Table.clean_nil
    · obtain ⟨cell, hsome⟩ :=
        Option.isSome_iff_exists.mp ((Table.isSome_get?_row columns _ c).mpr hc)
      rw [hsome]
      exact hcell c cell hsome

theorem get?_reread_of_clean (h : Regular type columns fields) (hne : columns ≠ [])
    (hclean : ∀ c ∈ columns, Table.Clean (shown fields c)) (index : Nat) (key : Text) :
    Entries.get? (reread type columns fields index) key =
      if key = idKey then some (if idKey ∈ columns then shown fields idKey else slugId fields index)
      else if key = text "id" then none
      else (if key ∈ columns then some (shown fields key) else none).or
        (if key = typeKey then some type else none) := by
  rw [reread, Table.cells_line_of_clean (by simpa using hne) (by simpa using hclean),
    get?_rowFields (Table.nodupKeys_row _ _), rowId_shown h, Table.get?_row_map]

theorem single_shown (h : Regular type columns fields) {c : Text} (hc : c ∈ columns) :
    '\n' ∉ shown fields c := by
  rw [shown]
  cases hget : Entries.get? fields c with
  | none => exact List.not_mem_nil
  | some v =>
      refine h.single c v hget ?_
      by_cases htype : c = typeKey
      · exact .inr (htype ▸ hc)
      · exact .inl htype

theorem regular_reread (h : Regular type columns fields) (index : Nat) :
    Regular type columns (reread type columns fields index) := by
  refine regular_rowFields type (fun c hc hmem => ?_) index
  have hcells : ∀ cell ∈ columns.map (shown fields), '\n' ∉ cell := by
    intro cell hcell
    obtain ⟨column, hcolumn, rfl⟩ := List.mem_map.mp hcell
    exact single_shown h hcolumn
  exact (Table.barred_line hcells).single (Table.mem_of_mem_cells hc hmem)

theorem get?_reread_iff (h : Regular type columns fields) (hne : columns ≠ []) (index : Nat) :
    (∀ key, Entries.get? (reread type columns fields index) key = Entries.get? fields key) ↔
      (∀ c ∈ columns, Table.Clean (shown fields c)) ∧
        (idKey ∈ columns ∨ Entries.get? fields idKey = some (slugId fields index)) := by
  constructor
  · intro hsame
    have hclean := fun c hc => clean_shown_of_reread hsame (c := c) hc
    refine ⟨hclean, ?_⟩
    have hid := get?_reread_of_clean h hne hclean index idKey
    rw [hsame, if_pos rfl] at hid
    split at hid
    · next hmem => exact .inl hmem
    · exact .inr hid
  · rintro ⟨hclean, hid⟩
    have hread := get?_reread_of_clean h hne hclean index
    have hown : Entries.get? (reread type columns fields index) idKey =
        Entries.get? fields idKey := by
      rw [hread, if_pos rfl]
      split
      · obtain ⟨id, hid, -⟩ := h.id
        rw [shown, hid]
        rfl
      · next hmem => exact (hid.resolve_left hmem).symm
    rw [(regular_reread h index).forall_get?_iff h]
    refine ⟨hown, fun c hc => ?_⟩
    by_cases hkey : c = idKey
    · rw [hkey, shown, hown, shown]
    · by_cases hplain : c = text "id"
      · rw [hplain, shown, (regular_reread h index).noId, shown, h.noId]
      · rw [shown, hread, if_neg hkey, if_neg hplain, if_pos hc]
        rfl

/-- The items that are read from a table, row by row. -/
def rereadAll (type : Text) (columns : List Text) (items : List (Entries Text)) :
    List (Entries Text) :=
  items.zipIdx.map fun entry => reread type columns entry.1 entry.2

theorem length_rereadAll : (rereadAll type columns items).length = items.length := by
  simp [rereadAll]

theorem getElem?_rereadAll (index : Nat) :
    (rereadAll type columns items)[index]? =
      items[index]?.map fun fields => reread type columns fields index := by
  rw [rereadAll, List.getElem?_map, List.getElem?_zipIdx, Option.map_map, Nat.zero_add]
  rfl

theorem read_written (hne : columns ≠ []) (hcolumns : ∀ c ∈ columns, Table.Clean c ∧ '\n' ∉ c)
    (hitems : ∀ fields ∈ items, Regular type columns fields) :
    read type (Table.written columns (items.map fun fields => columns.map (shown fields))) =
      props ((rereadAll type columns items).map itemOf) columns := by
  have hheaders : ∀ c ∈ columns, '\n' ∉ c := fun c hc => (hcolumns c hc).2
  have hrows : ∀ r ∈ items.map fun fields => columns.map (shown fields), ∀ c ∈ r, '\n' ∉ c := by
    intro r hr c hc
    obtain ⟨fields, hfields, rfl⟩ := List.mem_map.mp hr
    obtain ⟨key, hkey, rfl⟩ := List.mem_map.mp hc
    exact single_shown (hitems fields hfields) hkey
  have hhead : (Table.written columns (items.map fun fields => columns.map (shown fields))).head? =
      some '|' := Table.head?_written
  rw [read, Table.strip_written hheaders hrows, Table.ofText_written hheaders hrows,
    Table.cells_line_of_clean hne fun c hc => (hcolumns c hc).1]
  generalize Table.written columns _ = content at *
  have hitems' : content ≠ noItems := by
    rintro rfl
    exact absurd hhead (by decide)
  have hcolumns' : content ≠ noColumns := by
    rintro rfl
    exact absurd hhead (by decide)
  dsimp only
  rw [if_neg (by simp [hitems', hcolumns']), if_neg (by rw [hhead]; decide), List.map_map,
    List.zipIdx_map, List.map_map, rereadAll, List.map_map]
  exact congrArg (props · columns) (List.map_congr_left fun _ _ => rowItem_eq type _ _)

/-! ## Lists -/

theorem head?_strip_of_dash {content : Text} (h : content.head? = some '-') :
    (Text.strip content).head? = some '-' := by
  obtain ⟨r, rfl⟩ := List.head?_eq_some_iff.mp h
  have hleft : Text.stripLeft ('-' :: r) = '-' :: r := List.dropWhile_cons_of_neg (by decide)
  rw [Text.strip, hleft, Text.stripRight]
  cases Text.stripRight r <;> rfl

theorem read_of_dash {content : Text} (h : content.head? = some '-') :
    read type content =
      props (((Listed.ofText (Text.strip content)).map (Listed.fields type)).map itemOf)
        [text "name"] := by
  have hhead := head?_strip_of_dash h
  rw [read, List.map_map]
  generalize Text.strip content = trimmed at *
  have hitems : trimmed ≠ noItems := by
    rintro rfl
    exact absurd hhead (by decide)
  have hcolumns : trimmed ≠ noColumns := by
    rintro rfl
    exact absurd hhead (by decide)
  dsimp only
  rw [if_neg (by simp [hitems, hcolumns]), if_pos hhead]
  exact congrArg (props · _) (List.map_congr_left fun e _ => Listed.item_eq type e)

theorem displayKey_cases (h : Regular type [text "name"] fields) :
    displayKey (textValues fields) = text "name" ∨
      displayKey (textValues fields) = idKey := by
  rw [displayKey]
  simp only [get?_textValues]
  split
  · next key hfind =>
      have htelling := List.find?_some hfind
      have hmem := List.mem_of_find?_eq_some hfind
      by_cases hid : key = idKey
      · exact .inr hid
      · refine .inl (Classical.byContradiction fun hname => ?_)
        have htype : key ≠ typeKey := by
          rintro rfl
          exact absurd hmem (by decide)
        rw [h.get?_eq_none hid htype (by simpa using hname)] at htelling
        exact Bool.false_ne_true htelling
  · next hfind =>
      obtain ⟨id, hid, hne⟩ := h.id
      have hempty := List.find?_eq_none.mp hfind idKey (by decide)
      rw [hid] at hempty
      exact absurd (by simpa [Value.isTruthy] using hempty) hne

theorem single_named (h : Regular type columns fields) {key : Text} (hkey : key ≠ typeKey) :
    '\n' ∉ named key fields := by
  obtain ⟨id, hid, -⟩ := h.id
  rw [named, hid, Option.getD_some]
  cases hfilled : filled? fields key with
  | none => exact h.single idKey id hid (.inl (by decide))
  | some v => exact h.single key v (filled?_eq_some_iff.mp hfilled).1 (.inl hkey)

theorem named_cases {key id name : Text} (hkey : key = text "name" ∨ key = idKey)
    (hid : Entries.get? fields idKey = some id)
    (hname : Entries.get? fields (text "name") = some name) :
    named key fields = name ∨ named key fields = id := by
  rw [named, hid, Option.getD_some]
  cases hfilled : filled? fields key with
  | none => exact .inr rfl
  | some v =>
      have hv := (filled?_eq_some_iff.mp hfilled).1
      rcases hkey with rfl | rfl
      · exact .inl (Option.some.inj (hv.symm.trans hname))
      · exact .inr (Option.some.inj (hv.symm.trans hid))

theorem get?_listed_iff (h : Regular type [text "name"] fields) {key : Text}
    (hkey : key = text "name" ∨ key = idKey) :
    (∃ e, Listed.ofShown? (Text.strip (named key fields)) = some e ∧
        ∀ k, Entries.get? (e.fields type) k = Entries.get? fields k) ↔
      ∃ t, Entries.get? fields idKey = some t ∧ Entries.get? fields (text "name") = some t ∧
        Text.strip t = t := by
  constructor
  · rintro ⟨e, he, hsame⟩
    have hid : Entries.get? fields idKey = some e.id :=
      (hsame idKey).symm.trans (Listed.get?_fields_id type e)
    have hname : Entries.get? fields (text "name") = some e.name :=
      (hsame (text "name")).symm.trans (Listed.get?_fields_name type e)
    rcases Listed.eq_or_length_lt_of_ofShown? he with rfl | ⟨hlt, hlt'⟩
    · exact ⟨_, hid, hname, Text.strip_strip _⟩
    · -- a link is longer than the text that it shows and than its target
      have hle := Text.length_strip_le (named key fields)
      rcases named_cases hkey hid hname with heq | heq
      all_goals
        rw [heq] at hle hlt hlt'
        omega
  · rintro ⟨t, hid, hname, htrim⟩
    have hnamed : named key fields = t := (named_cases hkey hid hname).elim id id
    have hne : t ≠ [] := by
      obtain ⟨id, hid', hne⟩ := h.id
      rw [hid, Option.some.injEq] at hid'
      rw [hid']
      exact hne
    have hshown : Listed.ofShown? t = some ⟨t, t⟩ := by
      rw [Listed.ofShown?, h.unlinked rfl t hid hname]
      exact if_neg hne
    have hkey' : key ≠ typeKey := by
      rcases hkey with rfl | rfl <;> decide
    refine ⟨⟨t, t⟩, by rw [hnamed, htrim, hshown], ?_⟩
    rw [(regular_listed type hshown (hnamed ▸ single_named h hkey')).forall_get?_iff h, hid]
    refine ⟨rfl, fun c hc => ?_⟩
    rw [List.mem_singleton.mp hc, shown, shown, hname, Listed.get?_fields_name]

/-! ## The round trip -/

/-- A list shows all that there is of items with a name: the name is the id, too, and it is read
as it is. -/
structure ShownByList (items : List (Entries Text)) (columns : List Text) : Prop where
  onlyNames : columns = [text "name"]
  names : ∀ fields ∈ items, ∃ t, Entries.get? fields idKey = some t ∧
    Entries.get? fields (text "name") = some t ∧ Text.strip t = t

/-- A table shows all that there is of items under columns: the cells are read as they are, and so
are the ids, from a column of their own or from the slugs and the numbers of the rows. -/
structure ShownByTable (items : List (Entries Text)) (columns : List Text) : Prop where
  someColumn : columns ≠ []
  cells : ∀ fields ∈ items, ∀ c ∈ columns, Table.Clean (shown fields c)
  ids : idKey ∈ columns ∨ ∀ (index : Nat) fields, items[index]? = some fields →
    Entries.get? fields idKey = some (slugId fields index)

/-- The format shows all that there is of the items and the columns. -/
def Lasting (format : Format) (items : List (Entries Text)) (columns : List Text) : Prop :=
  if items = [] then columns = []
  else
    match format with
    | .list => ShownByList items columns
    | .table => ShownByTable items columns

theorem equal_read_list_iff (hne : items ≠ [])
    (hitems : ∀ fields ∈ items, Regular type columns fields) :
    (read type (rendered .list items columns)).equal (props (items.map itemOf) columns) = true ↔
      ShownByList items columns := by
  obtain ⟨first, rest, heq⟩ := List.exists_cons_of_ne_nil hne
  generalize hkey : displayKey (textValues first) = key
  have hrendered : rendered .list items columns =
      List.intercalate ['\n'] ((items.map (named key)).map fun name => text "- " ++ name) := by
    rw [List.map_map, ← hkey, heq]
    rfl
  have hhead : (rendered .list items columns).head? = some '-' := by
    rw [hrendered, heq, List.map_cons, List.map_cons, Text.head?_intercalate (by simp [text])]
    rfl
  have hnodup : ∀ x ∈ (Listed.ofText (Text.strip (rendered .list items columns))).map
      (Listed.fields type), Entries.NodupKeys x := by
    intro x hx
    obtain ⟨e, -, rfl⟩ := List.mem_map.mp hx
    exact Listed.nodupKeys_fields type e
  rw [read_of_dash hhead, equal_props_iff hnodup, eq_comm (a := [text "name"])]
  refine Iff.trans (and_congr_right ?_) ⟨fun h => ⟨h.1, h.2⟩, fun h => ⟨h.onlyNames, h.names⟩⟩
  rintro rfl
  have hcases : key = text "name" ∨ key = idKey :=
    hkey ▸ displayKey_cases (hitems first (heq ▸ List.mem_cons_self ..))
  have hsingle : ∀ n ∈ items.map (named key), '\n' ∉ n := by
    intro n hn
    obtain ⟨fields, hfields, rfl⟩ := List.mem_map.mp hn
    refine single_named (hitems fields hfields) ?_
    rcases hcases with rfl | rfl <;> decide
  rw [hrendered, Listed.ofText_written (by simpa using hne) hsingle, List.filterMap_map,
    List.map_filterMap, forall_filterMap_iff]
  refine forall_congr' fun fields => imp_congr_right fun hfields => ?_
  rw [← get?_listed_iff (hitems fields hfields) hcases]
  simp only [Option.map_eq_some_iff, Function.comp_apply]
  constructor
  · rintro ⟨_, ⟨e, he, rfl⟩, hsame⟩
    exact ⟨e, he, hsame⟩
  · rintro ⟨e, he, hsame⟩
    exact ⟨_, ⟨e, he, rfl⟩, hsame⟩

theorem forall_get?_rereadAll_iff (hne : columns ≠ [])
    (hitems : ∀ fields ∈ items, Regular type columns fields) :
    (∀ (i : Nat) x y, (rereadAll type columns items)[i]? = some x → items[i]? = some y →
        ∀ key, Entries.get? x key = Entries.get? y key) ↔
      ∀ (index : Nat) fields, items[index]? = some fields →
        (∀ c ∈ columns, Table.Clean (shown fields c)) ∧
          (idKey ∈ columns ∨ Entries.get? fields idKey = some (slugId fields index)) := by
  constructor
  · intro hsame index fields hfields
    rw [← get?_reread_iff (hitems fields (List.mem_of_getElem? hfields)) hne]
    exact hsame index _ fields (by rw [getElem?_rereadAll, hfields]; rfl) hfields
  · intro hshown i x y hx hy
    rw [getElem?_rereadAll, hy, Option.map_some, Option.some.injEq] at hx
    rw [← hx]
    exact (get?_reread_iff (hitems y (List.mem_of_getElem? hy)) hne i).mpr (hshown i y hy)

theorem equal_read_table_iff (hne : items ≠ [])
    (hcolumns : ∀ c ∈ columns, Table.Clean c ∧ '\n' ∉ c)
    (hitems : ∀ fields ∈ items, Regular type columns fields) :
    (read type (rendered .table items columns)).equal (props (items.map itemOf) columns) = true ↔
      ShownByTable items columns := by
  have hrendered : rendered .table items columns =
      if columns = [] then noColumns
      else Table.written columns (items.map fun fields => columns.map (shown fields)) := by
    obtain ⟨first, rest, rfl⟩ := List.exists_cons_of_ne_nil hne
    rfl
  by_cases hnone : columns = []
  · have hread : read type noColumns = props (([] : List (Entries Text)).map itemOf) [] := by
      rw [read]
      exact if_pos (.inr (by decide))
    rw [hrendered, if_pos hnone, hread, equal_props_iff (by simp)]
    refine ⟨fun h => absurd (List.eq_nil_of_length_eq_zero h.2.1.symm) hne, fun h => ?_⟩
    exact absurd hnone h.someColumn
  · have hnodup : ∀ x ∈ rereadAll type columns items, Entries.NodupKeys x := by
      intro x hx
      obtain ⟨entry, -, rfl⟩ := List.mem_map.mp hx
      exact nodupKeys_rowFields type _ entry.2
    rw [hrendered, if_neg hnone, read_written hnone hcolumns hitems, equal_props_iff hnodup,
      length_rereadAll, forall_get?_rereadAll_iff hnone hitems]
    constructor
    · rintro ⟨-, -, hshown⟩
      refine ⟨hnone, fun fields hfields => ?_, ?_⟩
      · obtain ⟨index, hindex⟩ := List.mem_iff_getElem?.mp hfields
        exact (hshown index fields hindex).1
      · by_cases hid : idKey ∈ columns
        · exact .inl hid
        · exact .inr fun index fields hfields =>
            (hshown index fields hfields).2.resolve_left hid
    · rintro ⟨-, hclean, hid⟩
      refine ⟨rfl, rfl, fun index fields hfields => ?_⟩
      refine ⟨hclean fields (List.mem_of_getElem? hfields), ?_⟩
      exact hid.imp_right fun hall => hall index fields hfields

/-- The same items and columns are read again exactly if the format shows all there is of them. -/
theorem equal_read_rendered_iff (format : Format)
    (hcolumns : ∀ c ∈ columns, Table.Clean c ∧ '\n' ∉ c)
    (hitems : ∀ fields ∈ items, Regular type columns fields) :
    (read type (rendered format items columns)).equal (props (items.map itemOf) columns) = true ↔
      Lasting format items columns := by
  rw [Lasting.eq_def]
  split
  · next hnil =>
      subst hnil
      have hread : read type noItems = props (([] : List (Entries Text)).map itemOf) [] := by
        rw [read]
        exact if_pos (.inl (by decide))
      rw [rendered, hread, equal_props_iff (by simp)]
      simp [eq_comm]
  · next hne =>
      cases format with
      | list => exact equal_read_list_iff hne hitems
      | table => exact equal_read_table_iff hne hcolumns hitems

/-- What was read is rendered and read again without a failure.  It comes back as it was if the
format shows all there is of it; and only then, a table with an `id` column apart. -/
theorem roundTrips_read (type content : Text) {options : RenderOptions} {format : Format}
    (hformat : Format.read options.format = .ok format) (hlink : options.linkPattern = [])
    (hlimit : options.limit = .null) :
    ∃ (items : List (Entries Text)) (columns : List Text) (holds : Bool),
      read type content = props (items.map itemOf) columns ∧
        (component type options).roundTrips (read type content) = .ok holds ∧
        (Lasting format items columns → holds = true) ∧
        ((format = .table → text "id" ∉ columns) → holds = true →
          Lasting format items columns) := by
  obtain ⟨items, columns, hread, hcolumns, hitems⟩ := exists_regular type content
  have hiff := equal_read_rendered_iff format hcolumns hitems
  refine ⟨items, columns, _, hread, ?_, hiff.mpr, fun _ => hiff.mp⟩
  rw [hread, Component.roundTrips, Component.roundTrip, component]
  simp only [render_props hlimit hformat hlink]
  rfl

/-- A table with slugs, one of them missing: the first item has its slug for an id, the second one
its number. -/
theorem roundTrips_read_slugs :
    let options : RenderOptions := {}
    let content := text "| name | slug |\n|---|---|\n| A | a |\n| B |  |"
    Format.read options.format = .ok .table ∧ options.linkPattern = [] ∧ options.limit = .null ∧
      (component (text "Tag") options).roundTrips (read (text "Tag") content) = .ok true ∧
      ∃ (items : List (Entries Text)) (columns : List Text) (holds : Bool),
        read (text "Tag") content = props (items.map itemOf) columns ∧
          (component (text "Tag") options).roundTrips (read (text "Tag") content) = .ok holds ∧
          (Lasting .table items columns → holds = true) ∧
          ((Format.table = .table → text "id" ∉ columns) → holds = true →
            Lasting .table items columns) := by
  intro options content
  have hformat : Format.read options.format = .ok .table := by decide +kernel
  exact ⟨hformat, rfl, rfl, by decide +kernel, roundTrips_read _ content hformat rfl rfl⟩

/-- A list is read under the options for tables.  The table shows the name and not the id, which
is read as the number of the row. -/
theorem not_roundTrips_list_as_table :
    let options : RenderOptions := {}
    Format.read options.format = .ok .table ∧ options.linkPattern = [] ∧ options.limit = .null ∧
      (component (text "Tag") options).roundTrips (read (text "Tag") (text "- JavaScript")) =
        .ok false := by
  intro options
  exact ⟨by decide +kernel, rfl, rfl, by decide +kernel⟩

end Entity

end InverseTemplate
