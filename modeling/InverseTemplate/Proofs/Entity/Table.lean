/-
# Reading tables that were written

A cell that a table was read with has no bar in it and no blanks at its ends.  Cells like these
can be written and are read again (`Table.cells_line`), and a table of them is read as it was
written (`Table.ofText_written`), repeated and empty headers included.

What does not look like this can be written all the same, but what is read then is another cell.
-/
import InverseTemplate.Entity.Table
import InverseTemplate.Proofs.Difference.Disjoint
import InverseTemplate.Proofs.Markdown.Fence
import InverseTemplate.Proofs.Text.Split
import InverseTemplate.Proofs.Text.Strip
import InverseTemplate.Proofs.Value.Place

namespace InverseTemplate

namespace Text

theorem strip_eq_self {t : Text} (hhead : ∀ c, t.head? = some c → isBlank c = false)
    (hlast : ∀ c, t.getLast? = some c → isBlank c = false) : strip t = t := by
  have hleft : stripLeft t = t := by
    cases t with
    | nil => rfl
    | cons c r =>
        rw [stripLeft, List.dropWhile_cons_of_neg]
        rw [hhead c rfl]
        exact Bool.false_ne_true
  rw [strip, hleft]
  exact stripRight_eq_self hlast

end Text

namespace Table

/-! ## Cells -/

/-- A cell as it is read: without a bar, and without blanks at its ends. -/
def Clean (cell : Text) : Prop := '|' ∉ cell ∧ Text.strip cell = cell

instance (cell : Text) : Decidable (Clean cell) :=
  inferInstanceAs (Decidable ('|' ∉ cell ∧ Text.strip cell = cell))

theorem clean_nil : Clean [] := ⟨List.not_mem_nil, rfl⟩

theorem clean_of_mem_cells {line cell : Text} (h : cell ∈ cells line) : Clean cell := by
  obtain ⟨piece, hpiece, rfl⟩ := List.mem_map.mp h
  have hmem := (List.mem_filter.mp hpiece).1
  exact ⟨fun hbar => Text.not_mem_of_mem_splitOn hmem (Text.mem_of_mem_strip hbar),
    Text.strip_strip piece⟩

theorem mem_of_mem_cells {line cell : Text} (h : cell ∈ cells line) {c : Char} (hc : c ∈ cell) :
    c ∈ line := by
  obtain ⟨piece, hpiece, rfl⟩ := List.mem_map.mp h
  have hinfix := Text.infix_of_mem_splitOn (List.mem_filter.mp hpiece).1
  exact hinfix.subset (Text.mem_of_mem_strip hc)

/-- A cell with the blanks around it that a line has. -/
def padded (cell : Text) : Text := ' ' :: cell ++ [' ']

theorem line_eq_intercalate {cs : List Text} (hne : cs ≠ []) :
    line cs = List.intercalate ['|'] ([] :: (cs.map padded ++ [[]])) := by
  have hjoin : List.intercalate ['|'] (cs.map padded ++ [[]]) =
      ' ' :: List.intercalate (text " | ") cs ++ text " |" := by
    induction cs with
    | nil => exact absurd rfl hne
    | cons c rest ih =>
        cases rest with
        | nil => simp [padded, text]
        | cons d rest =>
            have hrest := ih (List.cons_ne_nil _ _)
            rw [List.map_cons, List.cons_append, List.intercalate_cons_of_ne_nil (by simp), hrest]
            simp [padded, text]
  have hcons : List.intercalate ['|'] ([] :: (cs.map padded ++ [[]])) =
      '|' :: List.intercalate ['|'] (cs.map padded ++ [[]]) := by
    rw [List.intercalate_cons_of_ne_nil (by simp)]
    rfl
  rw [hcons, hjoin, line]
  rfl

theorem strip_padded (cell : Text) : Text.strip (padded cell) = Text.strip cell :=
  Text.strip_append_append (a := [' ']) (by decide) (by decide) cell

theorem cells_line {cs : List Text} (hne : cs ≠ []) (h : ∀ c ∈ cs, '|' ∉ c) :
    cells (line cs) = cs.map Text.strip := by
  have hbars : ∀ piece ∈ [] :: (cs.map padded ++ [[]]), '|' ∉ piece := by
    intro piece hpiece
    rcases List.mem_cons.mp hpiece with rfl | hpiece
    · exact List.not_mem_nil
    · rcases List.mem_append.mp hpiece with hpiece | hpiece
      · obtain ⟨c, hc, rfl⟩ := List.mem_map.mp hpiece
        simpa [padded] using h c hc
      · rw [List.mem_singleton.mp hpiece]
        exact List.not_mem_nil
  have hfull : ((cs.map padded).filter fun piece => !piece.isEmpty) = cs.map padded := by
    rw [List.filter_eq_self]
    intro piece hpiece
    obtain ⟨c, -, rfl⟩ := List.mem_map.mp hpiece
    rfl
  rw [cells, line_eq_intercalate hne, List.splitOn_intercalate '|' hbars (List.cons_ne_nil _ _),
    List.filter_cons_of_neg (by simp), List.filter_append, hfull]
  show (cs.map padded ++ []).map Text.strip = _
  rw [List.append_nil, List.map_map]
  exact List.map_congr_left fun c _ => strip_padded c

theorem cells_line_of_clean {cs : List Text} (hne : cs ≠ []) (h : ∀ c ∈ cs, Clean c) :
    cells (line cs) = cs := by
  rw [cells_line hne fun c hc => (h c hc).1]
  exact (List.map_congr_left fun c hc => (h c hc).2).trans (List.map_id' cs)

/-! ## Lines -/

/-- A line of a written table begins and ends with a bar and is one line. -/
structure Barred (l : Text) : Prop where
  head : l.head? = some '|'
  last : l.getLast? = some '|'
  single : '\n' ∉ l

theorem barred_line {cs : List Text} (h : ∀ c ∈ cs, '\n' ∉ c) : Barred (line cs) where
  head := rfl
  last := by
    rw [line, List.getLast?_append]
    rfl
  single := by
    have hjoined := Text.not_mem_intercalate (show '\n' ∉ text " | " by decide) h
    simp only [line, List.mem_append, not_or]
    exact ⟨⟨by decide, hjoined⟩, by decide⟩

theorem barred_separator (width : Nat) : Barred (separator width) where
  head := rfl
  last := by
    rw [separator, List.getLast?_append]
    rfl
  single := by
    have hdashes : ∀ dash ∈ List.replicate width (text "---"), '\n' ∉ dash := by
      intro dash hdash
      rw [List.eq_of_mem_replicate hdash]
      decide
    have hjoined := Text.not_mem_intercalate (show '\n' ∉ ['|'] by decide) hdashes
    simp only [separator, List.mem_append, List.mem_cons, not_or]
    exact ⟨⟨by decide, hjoined⟩, by decide, List.not_mem_nil⟩

/-! ## Tables -/

variable {columns : List Text} {rows : List (List Text)}

theorem barred_of_mem_written (hcolumns : ∀ c ∈ columns, '\n' ∉ c)
    (hrows : ∀ r ∈ rows, ∀ c ∈ r, '\n' ∉ c) :
    ∀ l ∈ line columns :: separator columns.length :: rows.map line, Barred l := by
  intro l hl
  rcases List.mem_cons.mp hl with rfl | hl
  · exact barred_line hcolumns
  · rcases List.mem_cons.mp hl with rfl | hl
    · exact barred_separator _
    · obtain ⟨r, hr, rfl⟩ := List.mem_map.mp hl
      exact barred_line (hrows r hr)

theorem head?_written : (written columns rows).head? = some '|' := by
  rw [written, Text.head?_intercalate (by simp [line, text])]
  rfl

theorem strip_written (hcolumns : ∀ c ∈ columns, '\n' ∉ c)
    (hrows : ∀ r ∈ rows, ∀ c ∈ r, '\n' ∉ c) :
    Text.strip (written columns rows) = written columns rows := by
  refine Text.strip_eq_self (fun c hc => ?_) (fun c hc => ?_)
  · rw [head?_written] at hc
    cases hc
    decide
  · rw [written, Text.getLast?_intercalate (List.cons_ne_nil _ _) fun l hl =>
      (barred_of_mem_written hcolumns hrows l hl).last] at hc
    cases hc
    decide

/-- A written table is read line by line. -/
theorem ofText_written (hcolumns : ∀ c ∈ columns, '\n' ∉ c)
    (hrows : ∀ r ∈ rows, ∀ c ∈ r, '\n' ∉ c) :
    ofText (written columns rows) =
      ⟨cells (line columns), rows.map fun r => row (cells (line columns)) (cells (line r))⟩ := by
  have hbarred := barred_of_mem_written hcolumns hrows
  have hlines : contentLines (written columns rows) =
      line columns :: separator columns.length :: rows.map line := by
    rw [contentLines, strip_written hcolumns hrows, written,
      List.splitOn_intercalate '\n' (fun l hl => (hbarred l hl).single) (List.cons_ne_nil _ _),
      List.filter_eq_self]
    intro l hl
    have hblank := (Text.strip_eq_nil_iff l).not.mpr fun hall =>
      absurd (hall '|' (List.mem_of_head? (hbarred l hl).head)) (by decide)
    simpa using hblank
  rw [ofText, hlines]
  simp [ofLines, List.map_map, Function.comp_def]

/-! ## Rows -/

theorem get?_ofWrites_map {headers : List Text} (f : Text → Text) (key : Text) :
    Entries.get? (Entries.ofWrites (headers.map fun header => (header, f header))) key =
      if key ∈ headers then some (f key) else none := by
  split
  · next hkey =>
      refine Entries.get?_of_mem (Entries.nodupKeys_ofWrites _) ?_
      rw [Entries.mem_ofWrites_iff]
      · exact List.mem_map.mpr ⟨key, hkey, rfl⟩
      · intro a ha b hb hab
        obtain ⟨x, -, rfl⟩ := List.mem_map.mp ha
        obtain ⟨y, -, rfl⟩ := List.mem_map.mp hb
        have hxy : x = y := hab
        rw [hxy]
  · next hkey =>
      rw [Entries.get?_eq_none_iff, Entries.mem_keys_ofWrites, List.map_map]
      intro hmem
      obtain ⟨header, hheader, rfl⟩ := List.mem_map.mp hmem
      exact hkey hheader

theorem get?_row_map {headers : List Text} (f : Text → Text) (key : Text) :
    Entries.get? (row headers (headers.map f)) key =
      if key ∈ headers then some (f key) else none := by
  have hwrites : (headers.zipIdx.map fun entry => (entry.1, (headers.map f).getD entry.2 [])) =
      headers.map fun header => (header, f header) := by
    have hfst : headers.zipIdx.map Prod.fst = headers := List.zipIdx_map_fst 0 headers
    conv => rhs; rw [← hfst]
    rw [List.map_map]
    refine List.map_congr_left fun entry hmem => ?_
    have hget := List.mk_mem_zipIdx_iff_getElem?.mp hmem
    simp [List.getD, hget]
  rw [← get?_ofWrites_map, ← hwrites]
  rfl

theorem nodupKeys_row (headers cells : List Text) : Entries.NodupKeys (row headers cells) :=
  Entries.nodupKeys_ofWrites _

theorem isSome_get?_row (headers cells : List Text) (key : Text) :
    (Entries.get? (row headers cells) key).isSome ↔ key ∈ headers := by
  rw [Option.isSome_iff_ne_none, ne_eq, Entries.get?_eq_none_iff, Classical.not_not, row,
    Entries.mem_keys_ofWrites, List.map_map]
  have hfst : headers.zipIdx.map Prod.fst = headers := List.zipIdx_map_fst 0 headers
  conv => rhs; rw [← hfst]
  exact Iff.rfl

theorem mem_of_get?_row {headers cells : List Text} {key cell : Text}
    (h : Entries.get? (row headers cells) key = some cell) : cell ∈ cells ∨ cell = [] := by
  have hwrite := (Entries.mem_foldl_set (Entries.mem_of_get? h)).resolve_right List.not_mem_nil
  obtain ⟨⟨header, index⟩, -, heq⟩ := List.mem_map.mp hwrite
  obtain ⟨-, rfl⟩ := Prod.mk.injEq .. ▸ heq
  rw [List.getD]
  cases hget : cells[index]? with
  | none => exact .inr rfl
  | some cell => exact .inl (List.mem_of_getElem? hget)

theorem keys_row (headers cells : List Text) :
    Entries.keys (row headers cells) = headers.eraseDups := by
  rw [row, Entries.keys_ofWrites, List.map_map]
  exact congrArg List.eraseDups (List.zipIdx_map_fst 0 headers)

theorem row_map_getD (headers cells : List Text) :
    row headers (headers.map fun header => (Entries.get? (row headers cells) header).getD []) =
      row headers cells := by
  refine Entries.ext_of_keys ?_ (nodupKeys_row _ _) fun key => ?_
  · rw [keys_row, keys_row]
  · have hmem := isSome_get?_row headers cells key
    rw [get?_row_map]
    split
    · next hkey =>
        obtain ⟨cell, hcell⟩ := Option.isSome_iff_exists.mp (hmem.mpr hkey)
        rw [hcell]
        rfl
    · next hkey => exact (Option.not_isSome_iff_eq_none.mp fun h => hkey (hmem.mp h)).symm

theorem single_of_mem_contentLines {content l : Text} (h : l ∈ contentLines content) : '\n' ∉ l :=
  Text.not_mem_of_mem_splitOn (List.mem_filter.mp h).1

/-- Every table that is read has clean headers and rows of clean cells. -/
theorem exists_cells_ofText (content : Text) :
    (∀ c ∈ (ofText content).headers, Clean c ∧ '\n' ∉ c) ∧
      ∃ rows : List (List Text), (ofText content).rows = rows.map (row (ofText content).headers) ∧
        ∀ r ∈ rows, ∀ c ∈ r, Clean c ∧ '\n' ∉ c := by
  rw [ofText]
  cases hlines : contentLines content with
  | nil => exact ⟨fun c hc => absurd hc List.not_mem_nil, [], rfl, by simp⟩
  | cons first rest =>
      cases rest with
      | nil => exact ⟨fun c hc => absurd hc List.not_mem_nil, [], rfl, by simp⟩
      | cons second more =>
          have hcells : ∀ l ∈ first :: second :: more, ∀ c ∈ cells l, Clean c ∧ '\n' ∉ c := by
            rw [← hlines]
            exact fun l hl c hc => ⟨clean_of_mem_cells hc, fun hmem =>
              single_of_mem_contentLines hl (mem_of_mem_cells hc hmem)⟩
          refine ⟨hcells first (List.mem_cons_self ..), more.map cells, ?_, ?_⟩
          · rw [List.map_map]
            rfl
          · intro r hr
            obtain ⟨l, hl, rfl⟩ := List.mem_map.mp hr
            exact hcells l (List.mem_cons_of_mem _ (List.mem_cons_of_mem _ hl))

end Table

end InverseTemplate
