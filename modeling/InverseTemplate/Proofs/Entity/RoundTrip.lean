/-
# Tables and lists that come back

A table that was read from any content comes back when it is rendered with its own headers for
columns (`ofText_renderTable`): what was read are clean cells, a line of clean cells is read as
them, and a row holds nothing but what its headers show.

A list comes back if each of its entities has no more to it than an id, a name and the type, and
the line shows the id and the name so that they can be told apart (`roundTrip_list`): in a link,
behind the last slash of the target and in front of its closing parenthesis, or as one text that
does not look like a link.
-/
import InverseTemplate.Proofs.Entity.Stable

namespace InverseTemplate

/-- A word that is found only at the end of a text, with something in front of it that is not in
the word, gives way there. -/
theorem Text.replaceAll_append_cons {word replacement front : Text} {sep : Char}
    (hsep : sep ∉ word) (hfront : ¬ word <:+: front) :
    replaceAll word replacement (front ++ sep :: word) = front ++ sep :: replacement := by
  induction front with
  | nil =>
      have hnot : ¬ word <+: sep :: word := fun h => by
        cases word with
        | nil => exact hfront List.nil_infix
        | cons c r => exact hsep ((List.cons_prefix_cons.mp h).1 ▸ List.mem_cons_self ..)
      have hself : replaceAll word replacement word = replacement := by
        cases word with
        | nil => exact absurd List.nil_infix hfront
        | cons c r => simp [replaceAll]
      rw [List.nil_append, replaceAll, if_neg (by simpa using fun _ => hnot), hself]
      rfl
  | cons c r ih =>
      have hnot : ¬ word <+: c :: r ++ sep :: word := fun h => by
        have hpart := prefix_of_prefix_append h (fun d hd => by cases hd; exact hsep)
        exact hfront hpart.isInfix
      rw [List.cons_append, replaceAll, if_neg (by simpa using fun _ => hnot),
        ih fun h => hfront (List.infix_cons h)]
      rfl

namespace Entity

/-! ## Tables -/

theorem clean_shown_row {headers cells : List Text} (hcells : ∀ c ∈ cells, Table.Clean c ∧ '\n' ∉ c)
    (column : Text) :
    Table.Clean (shown (Table.row headers cells) column) ∧
      '\n' ∉ shown (Table.row headers cells) column := by
  rw [shown]
  cases hcell : Entries.get? (Table.row headers cells) column with
  | none => exact ⟨Table.clean_nil, List.not_mem_nil⟩
  | some cell =>
      rcases Table.mem_of_get?_row hcell with hmem | rfl
      · exact hcells cell hmem
      · exact ⟨Table.clean_nil, List.not_mem_nil⟩

theorem ofText_rendered {headers : List Text} {rows : List (List Text)}
    (hheaders : ∀ c ∈ headers, Table.Clean c ∧ '\n' ∉ c)
    (hrows : ∀ r ∈ rows, ∀ c ∈ r, Table.Clean c ∧ '\n' ∉ c) (hne : headers ≠ [])
    (hne' : rows ≠ []) :
    Table.ofText (rendered .table (rows.map (Table.row headers)) headers) =
      ⟨headers, rows.map (Table.row headers)⟩ := by
  have hrendered : rendered .table (rows.map (Table.row headers)) headers =
      Table.written headers (rows.map fun r => headers.map (shown (Table.row headers r))) := by
    obtain ⟨first, rest, rfl⟩ := List.exists_cons_of_ne_nil hne'
    rw [List.map_cons, rendered, if_neg hne, ← List.map_cons, List.map_map]
    rfl
  have hshown : ∀ r ∈ rows, ∀ c ∈ headers.map (shown (Table.row headers r)),
      Table.Clean c ∧ '\n' ∉ c := by
    intro r hr c hc
    obtain ⟨column, -, rfl⟩ := List.mem_map.mp hc
    exact clean_shown_row (hrows r hr) column
  have hsingle : ∀ r ∈ rows.map fun r => headers.map (shown (Table.row headers r)),
      ∀ c ∈ r, '\n' ∉ c := by
    intro r hr c hc
    obtain ⟨cells, hcells, rfl⟩ := List.mem_map.mp hr
    exact (hshown cells hcells c hc).2
  rw [hrendered, Table.ofText_written (fun c hc => (hheaders c hc).2) hsingle,
    Table.cells_line_of_clean hne fun c hc => (hheaders c hc).1, List.map_map]
  refine congrArg (Table.mk headers) (List.map_congr_left fun r hr => ?_)
  show Table.row headers (Table.cells (Table.line (headers.map (shown (Table.row headers r))))) = _
  rw [Table.cells_line_of_clean (by simpa using hne) fun c hc => (hshown r hr c hc).1]
  exact Table.row_map_getD headers r

/-- A table that was read comes back as it was when it is rendered and read again: with the same
headers, and the same cells in every row. -/
theorem ofText_renderTable (content : Text) (hheaders : (Table.ofText content).headers ≠ [])
    (hrows : (Table.ofText content).rows ≠ []) :
    ∃ again, renderTable {} (.list ((Table.ofText content).headers.map .text))
        ((Table.ofText content).rows.map itemOf) = .ok again ∧
      Table.ofText again = Table.ofText content := by
  obtain ⟨hclean, rows, hread, hcells⟩ := Table.exists_cells_ofText content
  refine ⟨_, renderTable_itemOf rfl _ _, ?_⟩
  rw [hread] at hrows ⊢
  rw [ofText_rendered hclean hcells hheaders (by simpa using hrows), ← hread]

/-- A repeated and an empty header, a row that is too short, one that is too long, and blanks and
lines that are left out. -/
theorem ofText_renderTable_repeated :
    let content := text "\n a || b |  | a\n--\n\n| 1 |  \n|2|3|4|\t5 |6|\n"
    (Table.ofText content).headers ≠ [] ∧ (Table.ofText content).rows ≠ [] ∧
      ∃ again, renderTable {} (.list ((Table.ofText content).headers.map .text))
          ((Table.ofText content).rows.map itemOf) = .ok again ∧
        Table.ofText again = Table.ofText content := by
  intro content
  have hheaders : (Table.ofText content).headers ≠ [] := by decide +kernel
  have hrows : (Table.ofText content).rows ≠ [] := by decide +kernel
  exact ⟨hheaders, hrows, ofText_renderTable content hheaders hrows⟩

/-! ## Lists -/

namespace Listed

variable {type : Text} {options : RenderOptions} {e : Listed} {fields : Entries Text}

/-- A link to the entity can be taken apart again: its name ends at the bracket, and its id is all
that there is between the last slash and the parenthesis. -/
structure Linkable (e : Listed) : Prop where
  name : e.name ≠ []
  bracket : ']' ∉ e.name
  id : e.id ≠ []
  slash : '/' ∉ e.id
  paren : ')' ∉ e.id
  trimmed : Text.stripRight e.id = e.id
  single : '\n' ∉ e.name ∧ '\n' ∉ e.id

/-- The name of the entity stands for its id, and it cannot be taken for a link. -/
structure SelfNamed (e : Listed) : Prop where
  id : e.id = e.name
  name : e.name ≠ []
  trimmed : Text.strip e.name = e.name
  single : '\n' ∉ e.name
  unlinked : e.name.head? ≠ some '['

/-- The line of the entity shows its id and its name. -/
inductive ShownBy (options : RenderOptions) (e : Listed) : Prop
  /-- The id is the last part of the link. -/
  | linked (base : Text) (pattern : options.linkPattern = base ++ '/' :: idMark)
      (paren : ')' ∉ base)
      (single : '\n' ∉ base) (mark : ¬ idMark <:+: base) (linkable : e.Linkable)
  /-- There is no link. -/
  | plain (pattern : options.linkPattern = []) (selfNamed : e.SelfNamed)

/-- What stands behind the dash in the line of an entity. -/
def face (options : RenderOptions) (e : Listed) : Text :=
  if options.linkPattern = [] then e.name
  else '[' :: (e.name ++ ']' :: '(' :: (Text.replaceAll idMark e.id options.linkPattern ++ [')']))

/-! ### Links that are read again -/

theorem upTo?_append {closing : Char} {inner : Text} (hne : inner ≠ []) (h : closing ∉ inner)
    (rest : Text) : upTo? closing (inner ++ closing :: rest) = some (inner, rest) := by
  have hrun := (Text.takeWhile_append_of_stop (p := fun c => decide (c ≠ closing)) (a := inner)
    (b := closing :: rest) (fun c hc => decide_eq_true fun heq => h (heq ▸ hc))
    (fun c hc => by cases hc; simp)).1
  rw [upTo?]
  simp only [hrun, List.drop_left, if_neg hne]

theorem link?_append {name target : Text} (hname : name ≠ []) (hbracket : ']' ∉ name)
    (htarget : target ≠ []) (hparen : ')' ∉ target) (rest : Text) :
    link? ('[' :: (name ++ ']' :: '(' :: (target ++ ')' :: rest))) = some (name, target) := by
  simp only [link?, upTo?_append hname hbracket, upTo?_append htarget hparen, Option.map_some]

theorem idOfTarget_append {id : Text} (hne : id ≠ []) (hslash : '/' ∉ id)
    (htrimmed : Text.stripRight id = id) (base : Text) : idOfTarget (base ++ '/' :: id) = id := by
  have htarget : Text.stripRight (base ++ '/' :: id) = base ++ '/' :: id := by
    have hsplit : base ++ '/' :: id = (base ++ ['/']) ++ id := by simp
    rw [hsplit, Text.stripRight_append_of_ne_nil _ (htrimmed.symm ▸ hne), htrimmed]
  rw [idOfTarget, htarget, List.splitOn_append_cons_self, List.splitOn_eq_singleton hslash,
    List.getLast?_concat]
  exact if_neg hne

theorem link?_eq_none_of_head? {t : Text} (h : t.head? ≠ some '[') : link? t = none := by
  rw [link?.eq_def]
  split
  · exact absurd rfl h
  · rfl

section Shown

variable (h : e.ShownBy options)

include h

theorem face_cases :
    (face options e = e.name ∧ e.SelfNamed) ∨
      ∃ base, face options e = '[' :: (e.name ++ ']' :: '(' :: ((base ++ '/' :: e.id) ++ [')'])) ∧
        ')' ∉ base ∧ '\n' ∉ base ∧ e.Linkable := by
  cases h with
  | linked base pattern paren single mark linkable =>
      refine .inr ⟨base, ?_, paren, single, linkable⟩
      have hslash : '/' ∉ idMark := by decide
      rw [face, pattern, if_neg (by simp), Text.replaceAll_append_cons hslash mark]
  | plain pattern selfNamed => exact .inl ⟨if_pos pattern, selfNamed⟩

theorem ofShown?_face : ofShown? (Text.strip (face options e)) = some e := by
  rcases face_cases h with ⟨hface, hname⟩ | ⟨base, hface, hparen, -, hlink⟩
  · rw [hface, hname.trimmed, ofShown?, link?_eq_none_of_head? hname.unlinked]
    refine (if_neg hname.name).trans (congrArg some ?_)
    show (⟨e.name, e.name⟩ : Listed) = ⟨e.id, e.name⟩
    rw [hname.id]
  · have htrim : Text.strip (face options e) = face options e := by
      refine Text.strip_eq_self (fun c hc => ?_) (fun c hc => ?_)
      · rw [hface] at hc
        cases hc
        decide
      · have hlast : (face options e).getLast? = some ')' := by
          rw [hface]
          simp [List.getLast?_cons, List.getLast?_append]
        rw [hlast] at hc
        cases hc
        decide
    have htarget : ')' ∉ base ++ '/' :: e.id := by simp [hparen, hlink.paren]
    rw [htrim, hface, ofShown?, link?_append hlink.name hlink.bracket (by simp) htarget]
    simp only [idOfTarget_append hlink.id hlink.slash hlink.trimmed]

theorem single_face : '\n' ∉ face options e := by
  rcases face_cases h with ⟨hface, hname⟩ | ⟨base, hface, -, hsingle, hlink⟩
  · rw [hface]
    exact hname.single
  · rw [hface]
    simp [hsingle, hlink.single.1, hlink.single.2]

theorem ShownBy.name_ne_nil : e.name ≠ [] := by
  rcases face_cases h with ⟨-, hname⟩ | ⟨-, -, -, -, hlink⟩
  · exact hname.name
  · exact hlink.name

end Shown

/-! ### Items -/

/-- The entity that the fields of an item tell of. -/
def ofFields (fields : Entries Text) : Listed := ⟨shown fields idKey, shown fields (text "name")⟩

section Fields

variable (hfields : fields.Perm (e.fields type))

include hfields

theorem get?_of_perm_fields (key : Text) :
    Entries.get? fields key = Entries.get? (e.fields type) key :=
  Entries.get?_of_perm hfields (nodupKeys_fields type e) key

theorem ofFields_eq : ofFields fields = e := by
  rw [ofFields, shown, shown, get?_of_perm_fields hfields, get?_of_perm_fields hfields,
    get?_fields_id, get?_fields_name]
  rfl

theorem displayKey_of_perm_fields (hname : e.name ≠ []) :
    displayKey (textValues fields) = text "name" := by
  have hget : Entries.get? (textValues fields) (text "name") = some (.text e.name) := by
    rw [get?_textValues, get?_of_perm_fields hfields, get?_fields_name]
    rfl
  rw [displayKey, displayFields, List.find?_cons_of_pos]
  simpa [hget, Value.isTruthy] using hname

theorem listLine_itemOf (hname : e.name ≠ []) :
    listLine options (text "name") (itemOf fields) = .ok (text "- " ++ face options e) := by
  have hshown : named (text "name") fields = e.name := by
    have hfilled : filled? fields (text "name") = some e.name := by
      rw [filled?_eq_some_iff, get?_of_perm_fields hfields, get?_fields_name]
      exact ⟨rfl, hname⟩
    rw [named, hfilled]
    rfl
  have hid : field? (itemOf fields) idKey = .ok (some (.text e.id)) := by
    rw [itemOf, field?, get?_textValues, get?_of_perm_fields hfields, get?_fields_id]
    rfl
  rw [listLine, nameOf_itemOf, hshown, hid, face]
  by_cases hpattern : options.linkPattern = []
  · rw [if_pos hpattern]
    exact if_pos hpattern
  · rw [if_neg hpattern]
    refine (if_neg hpattern).trans ?_
    simp [text, Value.printed]

end Fields

end Listed

theorem render_named {type : Text} {options : RenderOptions} {items : List (Entries Text)}
    (hformat : Format.read options.format = .ok .list)
    (hlimit : options.limited (items.map itemOf) = .ok (items.map itemOf)) (hne : items ≠ [])
    (hitems : ∀ fields ∈ items, ∃ e : Listed, fields.Perm (e.fields type) ∧ e.name ≠ []) :
    render options (.map [(itemsKey, .list (items.map itemOf))]) =
      .ok (List.intercalate ['\n'] ((items.map (Listed.face options ∘ Listed.ofFields)).map
        fun shown => text "- " ++ shown)) := by
  have hlines : (items.map itemOf).mapM (listLine options (text "name")) =
      .ok (items.map fun fields => text "- " ++ Listed.face options (Listed.ofFields fields)) := by
    refine mapM_map_eq_ok fun fields hfields => ?_
    obtain ⟨e, hperm, hname⟩ := hitems fields hfields
    rw [Listed.listLine_itemOf hperm hname, Listed.ofFields_eq hperm]
  have hfilters : Entries.filterKeys (fun key => key ≠ itemsKey && key ≠ columnsKey)
      [(itemsKey, Value.list (items.map itemOf))] = [] := by
    simp [Entries.filterKeys]
  have hget : (Entries.get? [(itemsKey, Value.list (items.map itemOf))] itemsKey).getD .null =
      .list (items.map itemOf) := by
    simp [Entries.get?]
  have hlist : renderList options (items.map itemOf) = .ok (List.intercalate ['\n']
      (items.map fun fields => text "- " ++ Listed.face options (Listed.ofFields fields))) := by
    obtain ⟨first, rest, rfl⟩ := List.exists_cons_of_ne_nil hne
    obtain ⟨e, hperm, hname⟩ := hitems first (List.mem_cons_self ..)
    rw [List.map_cons] at hlimit hlines ⊢
    simp only [renderList, hlimit]
    show (do
      let lines ← (itemOf first :: rest.map itemOf).mapM
        (listLine options (displayKey (textValues first)))
      pure (List.intercalate ['\n'] lines)) = _
    rw [Listed.displayKey_of_perm_fields hperm hname, hlines]
    rfl
  rw [List.map_map]
  simp only [render, hfilters, hget, spread_list, hformat]
  exact hlist

theorem ofText_faces {type : Text} {options : RenderOptions} {items : List (Entries Text)}
    (hne : items ≠ [])
    (hitems : ∀ fields ∈ items, ∃ e : Listed, fields.Perm (e.fields type) ∧ e.ShownBy options) :
    Listed.ofText (Text.strip (List.intercalate ['\n']
        ((items.map (Listed.face options ∘ Listed.ofFields)).map fun shown =>
          text "- " ++ shown))) =
      items.map Listed.ofFields := by
  have hshown : ∀ fields ∈ items, (Listed.ofFields fields).ShownBy options :=
    fun fields hfields => by
    obtain ⟨e, hperm, hshown⟩ := hitems fields hfields
    rwa [Listed.ofFields_eq hperm]
  rw [Listed.ofText_written (by simpa using hne), List.filterMap_map]
  · rw [← List.filterMap_eq_map]
    exact List.filterMap_congr fun fields hfields => Listed.ofShown?_face (hshown fields hfields)
  · intro shown hmem
    obtain ⟨fields, hfields, rfl⟩ := List.mem_map.mp hmem
    exact Listed.single_face (hshown fields hfields)

/-- Entities that are shown by their lines come back: the list of them is read as the same items,
under the one column that a list has. -/
theorem roundTrip_list {type : Text} {options : RenderOptions} {items : List (Entries Text)}
    (hformat : Format.read options.format = .ok .list)
    (hlimit : options.limited (items.map itemOf) = .ok (items.map itemOf)) (hne : items ≠ [])
    (hitems : ∀ fields ∈ items, ∃ e : Listed, fields.Perm (e.fields type) ∧ e.ShownBy options) :
    ∃ found, (component type options).roundTrip (.map [(itemsKey, .list (items.map itemOf))]) =
        .ok found ∧
      found.equal (props (items.map itemOf) [text "name"]) = true := by
  have hrender := render_named hformat hlimit hne fun fields hfields => by
    obtain ⟨e, hperm, hshown⟩ := hitems fields hfields
    exact ⟨e, hperm, hshown.name_ne_nil⟩
  have hread := ofText_faces hne hitems
  generalize hcontent : List.intercalate ['\n']
    ((items.map (Listed.face options ∘ Listed.ofFields)).map
    fun shown => text "- " ++ shown) = content at hrender hread
  have hdash : content.head? = some '-' := by
    obtain ⟨first, rest, rfl⟩ := List.exists_cons_of_ne_nil hne
    rw [← hcontent, List.map_cons, List.map_cons, Text.head?_intercalate (by simp [text])]
    rfl
  refine ⟨read type content, ?_, ?_⟩
  · rw [Component.roundTrip, component]
    simp only [hrender]
    rfl
  · rw [read_of_dash hdash, hread, equal_props_iff]
    · refine ⟨rfl, by simp, fun i x fields hx hfields key => ?_⟩
      obtain ⟨e, hperm, -⟩ := hitems fields (List.mem_of_getElem? hfields)
      rw [List.getElem?_map, List.getElem?_map, hfields, Option.map_some, Option.map_some,
        Option.some.injEq, Listed.ofFields_eq hperm] at hx
      rw [← hx, Listed.get?_of_perm_fields hperm]
    · intro x hx
      obtain ⟨e, -, rfl⟩ := List.mem_map.mp hx
      exact Listed.nodupKeys_fields type e

/-- Links to a name with an opening bracket, blanks and a dash and to one that is a blank, and
fields in another order. -/
theorem roundTrip_list_linked :
    let options : RenderOptions :=
      { format := .text (text "list"), linkPattern := text "a [b/\x7b$id\x7d" }
    let items : List (Entries Text) :=
      [[(text "name", text " - [x ("), (typeKey, text "Tag"), (idKey, text " -]")],
        [(idKey, text "1"), (text "name", text " "), (typeKey, text "Tag")]]
    Format.read options.format = .ok .list ∧
      options.limited (items.map itemOf) = .ok (items.map itemOf) ∧ items ≠ [] ∧
      (∀ fields ∈ items, ∃ e : Listed, fields.Perm (e.fields (text "Tag")) ∧ e.ShownBy options) ∧
      ∃ found, (component (text "Tag") options).roundTrip
          (.map [(itemsKey, .list (items.map itemOf))]) = .ok found ∧
        found.equal (props (items.map itemOf) [text "name"]) = true := by
  intro options items
  have hformat : Format.read options.format = .ok .list := by decide +kernel
  have hitems : ∀ fields ∈ items, ∃ e : Listed,
      fields.Perm (e.fields (text "Tag")) ∧ e.ShownBy options := by
    refine List.forall_mem_cons.mpr ⟨?_, List.forall_mem_singleton.mpr ?_⟩
    · exact ⟨⟨text " -]", text " - [x ("⟩, by decide +kernel,
        .linked (text "a [b") (by decide) (by decide) (by decide) (by decide)
          ⟨by decide, by decide, by decide, by decide, by decide, by decide, by decide⟩⟩
    · exact ⟨⟨text "1", text " "⟩, by decide +kernel,
        .linked (text "a [b") (by decide) (by decide) (by decide) (by decide)
          ⟨by decide, by decide, by decide, by decide, by decide, by decide, by decide⟩⟩
  exact ⟨hformat, rfl, List.cons_ne_nil _ _, hitems,
    roundTrip_list hformat rfl (List.cons_ne_nil _ _) hitems⟩

end Entity

end InverseTemplate
