/-
# Items of texts

What is read from a content is a list of items whose fields are texts, and the columns.  Here such
props are rendered, and read props are compared: two of them are equal if they have the same
columns, and as many items with the same fields.
-/
import InverseTemplate.Entity.Component
import InverseTemplate.Proofs.Entity.Table
import InverseTemplate.Proofs.Value.Equal

namespace InverseTemplate

theorem mapM_eq_ok {α β : Type} {f : α → Except Failure β} {g : α → β} {l : List α}
    (h : ∀ x ∈ l, f x = .ok (g x)) : l.mapM f = .ok (l.map g) := by
  induction l with
  | nil => rfl
  | cons x rest ih =>
      obtain ⟨hx, hrest⟩ := List.forall_mem_cons.mp h
      rw [List.mapM_cons, hx, ih hrest]
      rfl

theorem mapM_map_eq_ok {α β γ : Type} {f : α → Except Failure β} {e : γ → α}
    {g : γ → β} {l : List γ}
    (h : ∀ x ∈ l, f (e x) = .ok (g x)) : (l.map e).mapM f = .ok (l.map g) := by
  rw [List.mapM_map]
  exact mapM_eq_ok h

namespace Entity

/-- Fields with their texts as values. -/
def textValues (fields : Entries Text) : Entries Value :=
  fields.map fun field => (field.1, .text field.2)

/-- The item with the given fields. -/
def itemOf (fields : Entries Text) : Value := .map (textValues fields)

/-- What a table shows of a field. -/
def shown (fields : Entries Text) (column : Text) : Text := (Entries.get? fields column).getD []

theorem get?_textValues (fields : Entries Text) (key : Text) :
    Entries.get? (textValues fields) key = (Entries.get? fields key).map .text := by
  induction fields with
  | nil => rfl
  | cons field rest ih =>
      obtain ⟨k, v⟩ := field
      rw [textValues, List.map_cons, Entries.get?, Entries.get?]
      split
      · rfl
      · exact ih

theorem keys_textValues (fields : Entries Text) :
    Entries.keys (textValues fields) = Entries.keys fields := by
  simp [Entries.keys, textValues]

/-! ## Equality -/

theorem equal_itemOf_iff {a b : Entries Text} (ha : Entries.NodupKeys a) :
    (itemOf a).equal (itemOf b) = true ↔ ∀ key, Entries.get? a key = Entries.get? b key := by
  have hnodup : Entries.NodupKeys (textValues a) := by
    rw [Entries.NodupKeys, keys_textValues]
    exact ha
  rw [itemOf, itemOf, Value.equal_map_iff hnodup]
  refine forall_congr' fun key => ?_
  rw [get?_textValues, get?_textValues]
  cases Entries.get? a key with
  | none => cases Entries.get? b key <;> simp [Value.Agree]
  | some x => cases Entries.get? b key <;> simp [Value.Agree, Value.equal]

theorem equalItems_itemOf_iff {a b : List (Entries Text)} (ha : ∀ x ∈ a, Entries.NodupKeys x) :
    Value.equalItems (a.map itemOf) (b.map itemOf) = true ↔
      a.length = b.length ∧ ∀ (i : Nat) x y, a[i]? = some x → b[i]? = some y →
        ∀ key, Entries.get? x key = Entries.get? y key := by
  rw [Value.equalItems_iff, List.length_map, List.length_map]
  refine and_congr_right fun _ => forall_congr' fun i => ?_
  rw [List.getElem?_map, List.getElem?_map]
  constructor
  · intro h x y hx hy
    rw [hx, hy] at h
    exact (equal_itemOf_iff (ha x (List.mem_of_getElem? hx))).mp (h _ _ rfl rfl)
  · intro h v w hv hw
    obtain ⟨x, hx, rfl⟩ := Option.map_eq_some_iff.mp hv
    obtain ⟨y, hy, rfl⟩ := Option.map_eq_some_iff.mp hw
    exact (equal_itemOf_iff (ha x (List.mem_of_getElem? hx))).mpr (h x y hx hy)

theorem equalItems_text_iff {a b : List Text} :
    Value.equalItems (a.map .text) (b.map .text) = true ↔ a = b := by
  induction a generalizing b with
  | nil => cases b <;> simp [Value.equalItems]
  | cons x a ih =>
      cases b with
      | nil => simp [Value.equalItems]
      | cons y b => simp [Value.equalItems, Value.equal, ih]

/-- Props are equal if the columns are the same, and the items field by field. -/
theorem equal_props_iff {a b : List (Entries Text)} {columns columns' : List Text}
    (ha : ∀ x ∈ a, Entries.NodupKeys x) :
    (props (a.map itemOf) columns).equal (props (b.map itemOf) columns') = true ↔
      columns = columns' ∧ a.length = b.length ∧ ∀ (i : Nat) x y, a[i]? = some x → b[i]? = some y →
        ∀ key, Entries.get? x key = Entries.get? y key := by
  have hne : itemsKey ≠ columnsKey := by decide
  have hkeys : Entries.keys [(itemsKey, Value.list (b.map itemOf)),
      (columnsKey, Value.list (columns'.map .text))] = [itemsKey, columnsKey] := rfl
  rw [props, props, Value.equal, hkeys, ← equalItems_itemOf_iff ha, ← equalItems_text_iff]
  simp [Entries.contains, Entries.get?, Value.equalEntries, Value.equal, Value.items?, hne,
    and_comm]

/-! ## Rendering -/

theorem cellsOf_itemOf (columns : List Text) (fields : Entries Text) :
    cellsOf columns (itemOf fields) = .ok (columns.map (shown fields)) := by
  refine mapM_eq_ok fun column _ => ?_
  rw [itemOf, field?, shown, get?_textValues]
  cases Entries.get? fields column <;> rfl

theorem columnsAsked_text (columns : List Text) :
    columnsAsked (.list (columns.map .text)) = .ok columns := by
  cases columns with
  | nil => rfl
  | cons column rest =>
      rw [columnsAsked, if_neg (by simp [Value.isTruthy])]
      show ((column :: rest).map Value.text).mapM _ = _
      refine (mapM_map_eq_ok (g := id) fun t _ => ?_).trans (congrArg _ (List.map_id _))
      rfl

/-- What is in a field, if there is anything. -/
def filled? (fields : Entries Text) (key : Text) : Option Text :=
  match Entries.get? fields key with
  | some (c :: r) => some (c :: r)
  | _ => none

/-- The name that a list shows for an item: what is in a field, or else the id. -/
def named (key : Text) (fields : Entries Text) : Text :=
  (filled? fields key).getD ((Entries.get? fields idKey).getD (text "None"))

theorem nameOf_itemOf (key : Text) (fields : Entries Text) :
    nameOf key (itemOf fields) = .ok (named key fields) := by
  have hid : ((Entries.get? fields idKey).map Value.text |>.getD .null).printed =
      (Entries.get? fields idKey).getD (text "None") := by
    cases Entries.get? fields idKey <;> rfl
  simp only [nameOf, itemOf, field?, get?_textValues, named, filled?, ← hid]
  rcases Entries.get? fields key with _ | _ | _ <;> rfl

/-- The text that items and columns are rendered to. -/
def rendered (format : Format) (items : List (Entries Text)) (columns : List Text) : Text :=
  match items with
  | [] => noItems
  | first :: _ =>
      match format with
      | .list =>
          let key := displayKey (textValues first)
          List.intercalate ['\n'] (items.map fun fields => text "- " ++ named key fields)
      | .table =>
          if columns = [] then noColumns
          else Table.written columns (items.map fun fields => columns.map (shown fields))

theorem spread_list (items : List Value) : spread (.list items) = .ok items := by
  cases items <;> rfl

section Rendering

variable {options : RenderOptions} (hlimit : options.limit = .null)

include hlimit

theorem limited_eq_ok {α : Type} (items : List α) : options.limited items = .ok items := by
  rw [RenderOptions.limited, hlimit]

theorem renderList_itemOf (hlink : options.linkPattern = []) (items : List (Entries Text))
    (columns : List Text) :
    renderList options (items.map itemOf) = .ok (rendered .list items columns) := by
  have hlines : ∀ key, (items.map itemOf).mapM (listLine options key) =
      .ok (items.map fun fields => text "- " ++ named key fields) := by
    refine fun key => mapM_map_eq_ok fun fields _ => ?_
    rw [listLine, nameOf_itemOf]
    simp only [hlink, if_true]
    rfl
  cases items with
  | nil => rfl
  | cons first rest =>
      rw [List.map_cons] at hlines ⊢
      simp only [renderList, limited_eq_ok hlimit]
      show (do
        let lines ← (itemOf first :: rest.map itemOf).mapM (listLine options (displayKey _))
        pure (List.intercalate ['\n'] lines)) = _
      rw [hlines]
      rfl

theorem renderTable_itemOf (items : List (Entries Text)) (columns : List Text) :
    renderTable options (.list (columns.map .text)) (items.map itemOf) =
      .ok (rendered .table items columns) := by
  have hcells : (items.map itemOf).mapM (cellsOf columns) =
      .ok (items.map fun fields => columns.map (shown fields)) :=
    mapM_map_eq_ok fun fields _ => cellsOf_itemOf columns fields
  cases items with
  | nil => rfl
  | cons first rest =>
      rw [List.map_cons] at hcells ⊢
      simp only [renderTable, columnsAsked_text, limited_eq_ok hlimit, rendered]
      show (if columns = [] then pure noColumns else do
        let cells ← (itemOf first :: rest.map itemOf).mapM (cellsOf columns)
        pure (Table.written columns cells)) = _
      rw [hcells]
      split <;> rfl

theorem render_props {format : Format} (hformat : Format.read options.format = .ok format)
    (hlink : options.linkPattern = []) (items : List (Entries Text)) (columns : List Text) :
    render options (props (items.map itemOf) columns) = .ok (rendered format items columns) := by
  have hne : itemsKey ≠ columnsKey := by decide
  have hfilters : Entries.filterKeys (fun key => key ≠ itemsKey && key ≠ columnsKey)
      [(itemsKey, Value.list (items.map itemOf)), (columnsKey, .list (columns.map .text))] =
        [] := by
    simp [Entries.filterKeys]
  have hitems : (Entries.get? [(itemsKey, Value.list (items.map itemOf)),
      (columnsKey, .list (columns.map .text))] itemsKey).getD .null = .list (items.map itemOf) := by
    simp [Entries.get?]
  have hcolumns : (Entries.get? [(itemsKey, Value.list (items.map itemOf)),
      (columnsKey, .list (columns.map .text))] columnsKey).getD .null =
        .list (columns.map .text) := by
    simp [Entries.get?, hne]
  cases format with
  | list =>
      rw [← renderList_itemOf hlimit hlink items columns]
      simp only [render, props, hfilters, hitems, spread_list, hformat]
      rfl
  | table =>
      rw [← renderTable_itemOf hlimit items columns]
      simp only [render, props, hfilters, hitems, hcolumns, spread_list, hformat]
      rfl

end Rendering

end Entity

end InverseTemplate
