/-
# What is read from a content

Whatever the content is, the items that are read from it have the same fields, those of the
columns, besides an id that is not empty, and the type (`Regular`).  Only an `id` column makes no
field: it has become the id.
-/
import InverseTemplate.Proofs.Entity.Item
import InverseTemplate.Proofs.Entity.Listing

namespace InverseTemplate

namespace Entity

/-! ## The id of a row -/

theorem rowId_eq (row : Entries Text) (index : Nat) :
    rowId row index =
      ((filled? row (text "id")).or ((filled? row idKey).or (filled? row (text "slug")))).getD
        (Text.ofNat index) := by
  have hfind : rowId row index =
      ([text "id", idKey, text "slug"].findSome? (filled? row)).getD (Text.ofNat index) := rfl
  rw [hfind]
  cases h1 : filled? row (text "id") <;> cases h2 : filled? row idKey <;>
    cases h3 : filled? row (text "slug") <;> simp [h1, h2, h3]

theorem filled?_eq_some_iff {fields : Entries Text} {key v : Text} :
    filled? fields key = some v ↔ Entries.get? fields key = some v ∧ v ≠ [] := by
  rw [filled?]
  rcases Entries.get? fields key with _ | _ | _
  · simp
  · simp only [reduceCtorEq, Option.some.injEq, false_iff, not_and, ne_eq, Classical.not_not]
    exact Eq.symm
  · simp only [Option.some.injEq, iff_self_and]
    rintro rfl
    exact List.cons_ne_nil _ _

theorem rowId_cases (row : Entries Text) (index : Nat) :
    (∃ key, filled? row key = some (rowId row index)) ∨ rowId row index = Text.ofNat index := by
  rw [rowId_eq]
  cases h1 : filled? row (text "id") with
  | some v => exact .inl ⟨_, h1⟩
  | none =>
      cases h2 : filled? row idKey with
      | some v => exact .inl ⟨_, h2⟩
      | none =>
          cases h3 : filled? row (text "slug") with
          | some v => exact .inl ⟨_, h3⟩
          | none => exact .inr rfl

theorem rowId_ne_nil (row : Entries Text) (index : Nat) : rowId row index ≠ [] := by
  rcases rowId_cases row index with ⟨key, hkey⟩ | hnumber
  · exact (filled?_eq_some_iff.mp hkey).2
  · rw [hnumber]
    exact Nat.toDigits_ne_nil

theorem rowId_induction {p : Text → Prop} {row : Entries Text} {index : Nat}
    (hcell : ∀ key cell, Entries.get? row key = some cell → p cell)
    (hnumber : p (Text.ofNat index)) : p (rowId row index) := by
  rcases rowId_cases row index with ⟨key, hkey⟩ | heq
  · exact hcell key _ (filled?_eq_some_iff.mp hkey).1
  · rw [heq]
    exact hnumber

/-! ## Fields -/

/-- The fields of the item of a row. -/
def rowFields (type : Text) (row : Entries Text) (index : Nat) : Entries Text :=
  (Entries.filterKeys (fun key => key ≠ text "id" && key ≠ idKey) row).foldl
    (fun fields cell => Entries.set fields cell.1 cell.2)
    [(idKey, rowId row index), (typeKey, type)]

theorem set_textValues (fields : Entries Text) (key v : Text) :
    Entries.set (textValues fields) key (.text v) = textValues (Entries.set fields key v) := by
  induction fields with
  | nil => rfl
  | cons field rest ih =>
      obtain ⟨k, w⟩ := field
      rw [textValues, List.map_cons, Entries.set, Entries.set]
      split
      · rfl
      · exact congrArg (List.cons _) ih

theorem rowItem_eq (type : Text) (row : Entries Text) (index : Nat) :
    rowItem type row index = itemOf (rowFields type row index) := by
  have hfold : ∀ cells fields : Entries Text,
      cells.foldl (fun item cell => Entries.set item cell.1 (.text cell.2)) (textValues fields) =
        textValues (cells.foldl (fun fields cell => Entries.set fields cell.1 cell.2) fields) := by
    intro cells
    induction cells with
    | nil => exact fun _ => rfl
    | cons cell rest ih =>
        intro fields
        rw [List.foldl_cons, List.foldl_cons, set_textValues, ih]
  exact congrArg Value.map (hfold _ [(idKey, rowId row index), (typeKey, type)])

theorem get?_rowFields {type : Text} {row : Entries Text} (hrow : Entries.NodupKeys row)
    (index : Nat) (key : Text) :
    Entries.get? (rowFields type row index) key =
      if key = idKey then some (rowId row index)
      else if key = text "id" then none
      else (Entries.get? row key).or (if key = typeKey then some type else none) := by
  rw [rowFields, Entries.get?_foldl_set (hrow.filterKeys _), Entries.get?_filterKeys]
  have hbase : Entries.get? [(idKey, rowId row index), (typeKey, type)] key =
      if key = idKey then some (rowId row index)
      else if key = typeKey then some type else none := by
    rw [Entries.get?, Entries.get?, Entries.get?_nil]
    simp only [eq_comm]
  rw [hbase]
  by_cases hid : key = idKey
  · rw [if_pos hid, if_pos hid, if_neg (by simp [hid])]
    rfl
  · rw [if_neg hid, if_neg hid]
    by_cases hplain : key = text "id"
    · have hne : text "id" ≠ typeKey := by decide
      rw [if_pos hplain, hplain, if_neg hne, if_neg (by simp)]
      rfl
    · rw [if_neg hplain, if_pos (by simp [hid, hplain])]

theorem nodupKeys_rowFields (type : Text) (row : Entries Text) (index : Nat) :
    Entries.NodupKeys (rowFields type row index) := by
  refine Entries.nodupKeys_foldl_set ?_ _
  show [idKey, typeKey].Nodup
  decide

/-- The fields of an entity of a list. -/
def Listed.fields (type : Text) (e : Listed) : Entries Text :=
  [(idKey, e.id), (text "name", e.name), (typeKey, type)]

theorem Listed.item_eq (type : Text) (e : Listed) : e.item type = itemOf (e.fields type) := rfl

theorem Listed.nodupKeys_fields (type : Text) (e : Listed) : Entries.NodupKeys (e.fields type) := by
  show [idKey, text "name", typeKey].Nodup
  decide

theorem Listed.get?_fields (type : Text) (e : Listed) (key : Text) :
    Entries.get? (e.fields type) key =
      if key = idKey then some e.id else if key = text "name" then some e.name
      else if key = typeKey then some type else none := by
  rw [Listed.fields, Entries.get?, Entries.get?, Entries.get?, Entries.get?_nil]
  simp only [eq_comm]

theorem Listed.get?_fields_id (type : Text) (e : Listed) :
    Entries.get? (e.fields type) idKey = some e.id := rfl

theorem Listed.get?_fields_name (type : Text) (e : Listed) :
    Entries.get? (e.fields type) (text "name") = some e.name := by
  rw [get?_fields, if_neg (by decide), if_pos rfl]

/-- An item as it is read under the given columns. -/
structure Regular (type : Text) (columns : List Text) (fields : Entries Text) : Prop where
  nodup : Entries.NodupKeys fields
  /-- The id is there. -/
  id : ∃ id, Entries.get? fields idKey = some id ∧ id ≠ []
  /-- It is under no other key. -/
  noId : Entries.get? fields (text "id") = none
  /-- Every other column is a field, and no field is there besides them and the type. -/
  field : ∀ key, key ≠ idKey → key ≠ text "id" → key ≠ typeKey →
    ((Entries.get? fields key).isSome ↔ key ∈ columns)
  type : ∃ shown, Entries.get? fields typeKey = some shown ∧ (typeKey ∉ columns → shown = type)
  /-- Everything but the type is on one line. -/
  single : ∀ key v, Entries.get? fields key = some v → key ≠ typeKey ∨ typeKey ∈ columns → '\n' ∉ v
  /-- A name that is its own id is no link. -/
  unlinked : columns = [text "name"] → ∀ t, Entries.get? fields idKey = some t →
    Entries.get? fields (text "name") = some t → Listed.link? t = none

section Regular

variable {type : Text} {columns : List Text} {fields : Entries Text}

theorem Regular.get?_eq_shown (h : Regular type columns fields) {key : Text} (hid : key ≠ idKey)
    (hplain : key ≠ text "id") (hkey : key ∈ columns) :
    Entries.get? fields key = some (shown fields key) := by
  have hsome : ∃ v, Entries.get? fields key = some v := by
    by_cases htype : key = typeKey
    · obtain ⟨v, hv, -⟩ := h.type
      exact ⟨v, htype ▸ hv⟩
    · exact Option.isSome_iff_exists.mp ((h.field key hid hplain htype).mpr hkey)
  obtain ⟨v, hv⟩ := hsome
  rw [shown, hv]
  rfl

theorem Regular.get?_eq_none (h : Regular type columns fields) {key : Text} (hid : key ≠ idKey)
    (htype : key ≠ typeKey) (hkey : key ∉ columns) : Entries.get? fields key = none := by
  by_cases hplain : key = text "id"
  · rw [hplain, h.noId]
  · rw [← Option.not_isSome_iff_eq_none, h.field key hid hplain htype]
    exact hkey

theorem Regular.forall_get?_iff {a b : Entries Text} (ha : Regular type columns a)
    (hb : Regular type columns b) :
    (∀ key, Entries.get? a key = Entries.get? b key) ↔
      Entries.get? a idKey = Entries.get? b idKey ∧ ∀ c ∈ columns, shown a c = shown b c := by
  constructor
  · intro hsame
    exact ⟨hsame idKey, fun c _ => by rw [shown, shown, hsame c]⟩
  · rintro ⟨hid, hcells⟩ key
    by_cases hkey : key = idKey
    · rw [hkey, hid]
    · by_cases hplain : key = text "id"
      · rw [hplain, ha.noId, hb.noId]
      · by_cases hmem : key ∈ columns
        · rw [ha.get?_eq_shown hkey hplain hmem, hb.get?_eq_shown hkey hplain hmem, hcells key hmem]
        · by_cases htype : key = typeKey
          · obtain ⟨v, hv, heq⟩ := ha.type
            obtain ⟨w, hw, heq'⟩ := hb.type
            rw [htype, hv, hw, heq (htype ▸ hmem), heq' (htype ▸ hmem)]
          · rw [ha.get?_eq_none hkey htype hmem, hb.get?_eq_none hkey htype hmem]

end Regular

section Rows

variable {columns cells : List Text}

theorem single_of_get?_rowFields {type : Text} {index : Nat} (h : ∀ c ∈ cells, '\n' ∉ c)
    {key v : Text}
    (hv : Entries.get? (rowFields type (Table.row columns cells) index) key = some v)
    (hshown : key ≠ typeKey ∨ typeKey ∈ columns) : '\n' ∉ v := by
  have hcells : ∀ key cell, Entries.get? (Table.row columns cells) key = some cell →
      '\n' ∉ cell := by
    intro key cell hcell
    rcases Table.mem_of_get?_row hcell with hmem | rfl
    · exact h cell hmem
    · exact List.not_mem_nil
  rw [get?_rowFields (Table.nodupKeys_row columns cells)] at hv
  split at hv
  · cases hv
    exact rowId_induction (p := fun t => '\n' ∉ t) hcells (Text.not_mem_ofNat (by decide))
  · split at hv
    · cases hv
    · cases hcell : Entries.get? (Table.row columns cells) key with
      | some cell =>
          rw [hcell] at hv
          cases hv
          exact hcells key v hcell
      | none =>
          -- only the type is there without a cell
          rw [hcell, Option.none_or] at hv
          split at hv
          · next htype =>
              subst htype
              have hcolumn := (Table.isSome_get?_row columns cells typeKey).mpr
                (hshown.resolve_left fun h => h rfl)
              rw [hcell] at hcolumn
              cases hcolumn
          · cases hv

theorem rowId_names (cells : List Text) (index : Nat) :
    rowId (Table.row [text "name"] cells) index = Text.ofNat index := by
  have hnone : ∀ key, key ≠ text "name" → filled? (Table.row [text "name"] cells) key = none := by
    intro key hkey
    rw [Option.eq_none_iff_forall_ne_some]
    intro v hv
    have hcolumn := (Table.isSome_get?_row [text "name"] cells key).mp
      (by rw [(filled?_eq_some_iff.mp hv).1]; rfl)
    exact hkey (List.mem_singleton.mp hcolumn)
  rw [rowId_eq, hnone _ (by decide), hnone _ (by decide), hnone _ (by decide)]
  rfl

theorem regular_rowFields (type : Text) (h : ∀ c ∈ cells, '\n' ∉ c) (index : Nat) :
    Regular type columns (rowFields type (Table.row columns cells) index) := by
  have hget := @get?_rowFields type _ (Table.nodupKeys_row columns cells) index
  constructor
  case nodup => exact nodupKeys_rowFields type _ index
  case id => exact ⟨_, (hget idKey).trans (if_pos rfl), rowId_ne_nil _ _⟩
  case noId => exact (hget (text "id")).trans (by rw [if_neg (by decide), if_pos rfl])
  case field =>
    intro key hid hplain htype
    rw [hget, if_neg hid, if_neg hplain, if_neg htype, Option.or_none, Table.isSome_get?_row]
  case type =>
    have hne : typeKey ≠ idKey ∧ typeKey ≠ text "id" := by decide
    rw [hget, if_neg hne.1, if_neg hne.2, if_pos rfl]
    have hcolumn := Table.isSome_get?_row columns cells typeKey
    cases hcell : Entries.get? (Table.row columns cells) typeKey with
    | none => exact ⟨type, rfl, fun _ => rfl⟩
    | some cell =>
        rw [hcell] at hcolumn
        exact ⟨cell, rfl, fun hnot => absurd (hcolumn.mp rfl) hnot⟩
  case single => exact fun key v hv hshown => single_of_get?_rowFields h hv hshown
  case unlinked =>
    rintro rfl t hid -
    rw [hget, if_pos rfl, rowId_names, Option.some.injEq] at hid
    rw [← hid]
    exact Listed.link?_eq_none_of_not_mem (Text.not_mem_ofNat (by decide))

end Rows

theorem regular_listed (type : Text) {shown : Text} {e : Listed}
    (h : Listed.ofShown? shown = some e)
    (hsingle : '\n' ∉ shown) : Regular type [text "name"] (e.fields type) := by
  have hget := Listed.get?_fields type e
  obtain ⟨hidsub, hnamesub⟩ := Listed.subset_of_ofShown? h
  constructor
  case nodup => exact Listed.nodupKeys_fields type e
  case id => exact ⟨e.id, rfl, Listed.id_ne_nil_of_ofShown? h⟩
  case noId => rw [hget, if_neg (by decide), if_neg (by decide), if_neg (by decide)]
  case field =>
    intro key hid hplain htype
    rw [hget, if_neg hid, if_neg htype, List.mem_singleton]
    split <;> simp_all
  case type =>
    refine ⟨type, ?_, fun _ => rfl⟩
    rw [hget, if_neg (by decide), if_neg (by decide), if_pos rfl]
  case single =>
    intro key v hv hshown
    rw [hget] at hv
    split at hv
    · cases hv
      exact fun hmem => hsingle (hidsub hmem)
    · split at hv
      · cases hv
        exact fun hmem => hsingle (hnamesub hmem)
      · split at hv
        · next htype =>
            refine absurd hshown ?_
            rw [htype]
            decide
        · cases hv
  case unlinked =>
    intro _ t hid hname
    rw [Listed.get?_fields_id, Option.some.injEq] at hid
    rw [Listed.get?_fields_name, Option.some.injEq] at hname
    rw [← hname]
    exact Listed.link?_name_of_ofShown? h (hid.trans hname.symm)

theorem regular_of_mem_ofText (type : Text) {content : Text} {e : Listed}
    (h : e ∈ Listed.ofText content) : Regular type [text "name"] (e.fields type) := by
  obtain ⟨line, hline, he⟩ := List.mem_filterMap.mp h
  rw [Listed.ofLine?_eq] at he
  obtain ⟨shown, hshown, he⟩ := Option.bind_eq_some_iff.mp he
  refine regular_listed type he fun hmem => Text.not_mem_of_mem_splitOn hline ?_
  exact Text.mem_of_mem_strip (Listed.subset_of_behindDash? hshown hmem)

/-- Whatever the content is, what is read from it is regular. -/
theorem exists_regular (type content : Text) :
    ∃ (items : List (Entries Text)) (columns : List Text),
      read type content = props (items.map itemOf) columns ∧
        (∀ c ∈ columns, Table.Clean c ∧ '\n' ∉ c) ∧
        ∀ fields ∈ items, Regular type columns fields := by
  rw [read]
  dsimp only
  split
  · exact ⟨[], [], rfl, by simp, by simp⟩
  · split
    · refine ⟨(Listed.ofText (Text.strip content)).map (Listed.fields type), [text "name"],
        ?_, ?_, ?_⟩
      · rw [List.map_map]
        exact congrArg (props · _) (List.map_congr_left fun e _ => Listed.item_eq type e)
      · intro c hc
        rw [List.mem_singleton.mp hc]
        decide
      · intro fields hfields
        obtain ⟨e, he, rfl⟩ := List.mem_map.mp hfields
        exact regular_of_mem_ofText type he
    · obtain ⟨hheaders, rows, hrows, hclean⟩ := Table.exists_cells_ofText (Text.strip content)
      refine ⟨(Table.ofText (Text.strip content)).rows.zipIdx.map fun entry =>
        rowFields type entry.1 entry.2,
        (Table.ofText (Text.strip content)).headers, ?_, hheaders, ?_⟩
      · rw [List.map_map]
        exact congrArg (props · _) (List.map_congr_left fun _ _ => rowItem_eq type _ _)
      · intro fields hfields
        obtain ⟨⟨row, i⟩, hrow, rfl⟩ := List.mem_map.mp hfields
        have hmem : row ∈ rows.map (Table.row (Table.ofText (Text.strip content)).headers) := by
          rw [← hrows]
          exact List.mem_of_getElem? (List.mk_mem_zipIdx_iff_getElem?.mp hrow)
        obtain ⟨cells, hcells, rfl⟩ := List.mem_map.mp hmem
        exact regular_rowFields type (fun c hc => (hclean cells hcells c hc).2) i

end Entity

end InverseTemplate
