/-
# Reading lists that were written

The line of an entity is a dash, a blank and what is shown of it.  What is read from the line is
either the link that is shown, and then the name and the id are shorter than what is shown, or all
that is shown, trimmed, as name and id in one (`Listed.of_ofShown?`).

Trimming the text of a list takes blanks from its last line only, and a line is trimmed anyway, so
a list is read line by line (`Listed.ofText_written`).
-/
import InverseTemplate.Entity.Listing
import InverseTemplate.Proofs.Entity.Table
import InverseTemplate.Text.Cursor

namespace InverseTemplate

namespace Text

theorem strip_stripRight (t : Text) : strip (stripRight t) = strip t := by
  conv => rhs; rw [← stripRight_append_trailingBlanks t]
  exact (strip_append_append (a := []) (by simp [AllBlank]) (allBlank_trailingBlanks t) _).symm

theorem stripLeft_stripRight (t : Text) : stripLeft (stripRight t) = strip t := by
  rw [← strip_stripRight t, strip, eq_comm]
  refine stripRight_eq_self fun c hc => isBlank_getLast_stripRight (t := t) ?_
  obtain ⟨front, hfront⟩ := List.dropWhile_suffix isBlank (l := stripRight t)
  rw [stripLeft] at hc
  rw [← hfront, List.getLast?_append, hc]
  rfl

/-- Lines that are not blank, with the blanks behind them taken away: these are blanks of the last
line. -/
theorem exists_lines_stripRight {lines : List Text} (hne : lines ≠ [])
    (h : ∀ l ∈ lines, ¬ AllBlank l) :
    ∃ lines', stripRight (List.intercalate ['\n'] lines) = List.intercalate ['\n'] lines' ∧
      lines'.map strip = lines.map strip ∧ lines' ≠ [] ∧ ∀ l' ∈ lines', ∃ l ∈ lines, l' <+: l := by
  induction lines with
  | nil => exact absurd rfl hne
  | cons l rest ih =>
      obtain ⟨hl, hrest⟩ := List.forall_mem_cons.mp h
      cases rest with
      | nil =>
          refine ⟨[stripRight l], ?_, ?_, List.cons_ne_nil _ _, ?_⟩
          · rw [List.intercalate_singleton, List.intercalate_singleton]
          · rw [List.map_singleton, List.map_singleton, strip_stripRight]
          · intro l' hl'
            rw [List.mem_singleton.mp hl']
            exact ⟨l, List.mem_singleton_self l, stripRight_isPrefix l⟩
      | cons m rest =>
          obtain ⟨lines', hjoin, hstrip, hne', hpart⟩ := ih (List.cons_ne_nil _ _) hrest
          have hblank : stripRight (List.intercalate ['\n'] (m :: rest)) ≠ [] := by
            rw [ne_eq, stripRight_eq_nil_iff]
            intro hall
            refine hrest m (List.mem_cons_self ..) fun c hc => hall c ?_
            exact (infix_intercalate_of_mem (List.mem_cons_self ..)).subset hc
          refine ⟨l :: lines', ?_, ?_, List.cons_ne_nil _ _, ?_⟩
          · rw [List.intercalate_cons_cons, stripRight_append_of_ne_nil _ hblank, hjoin,
              List.intercalate_cons_of_ne_nil hne']
          · rw [List.map_cons, List.map_cons, hstrip]
          · intro l' hl'
            rcases List.mem_cons.mp hl' with rfl | hl'
            · exact ⟨l', List.mem_cons_self .., List.prefix_refl _⟩
            · obtain ⟨k, hk, hbegins⟩ := hpart l' hl'
              exact ⟨k, List.mem_cons_of_mem _ hk, hbegins⟩

end Text

namespace Entity

namespace Listed

variable {t name target rest : Text}

/-! ## Links -/

theorem upTo?_eq_some {closing : Char} {inner : Text} (h : upTo? closing t = some (inner, rest)) :
    t = inner ++ closing :: rest ∧ inner ≠ [] ∧ closing ∉ inner := by
  have hsplit := List.takeWhile_append_dropWhile (p := fun c => decide (c ≠ closing)) (l := t)
  have hdrop : t.drop (t.takeWhile fun c => c ≠ closing).length =
      t.dropWhile fun c => c ≠ closing := Cursor.rest_skipWhile _ ⟨0, t⟩
  have hhead := List.head?_dropWhile_not (fun c => decide (c ≠ closing)) t
  rw [upTo?] at h
  simp only [hdrop] at h
  split at h
  · next c more hmore =>
      split at h
      · cases h
      · next hne =>
          cases h
          rw [hmore] at hsplit hhead
          obtain rfl : c = closing := by simpa using hhead
          refine ⟨hsplit.symm, hne, fun hmem => ?_⟩
          simpa using List.mem_takeWhile_imp hmem
  · cases h

theorem link?_eq_some (h : link? t = some (name, target)) :
    name ≠ [] ∧ ']' ∉ name ∧ target ≠ [] ∧
      ∃ rest, t = '[' :: (name ++ ']' :: '(' :: (target ++ ')' :: rest)) := by
  rw [link?.eq_def] at h
  split at h
  · next r =>
      split at h
      · next n s hname =>
          obtain ⟨⟨g, rest⟩, htarget, heq⟩ := Option.map_eq_some_iff.mp h
          cases heq
          obtain ⟨rfl, hn, hbracket⟩ := upTo?_eq_some hname
          obtain ⟨rfl, hg, -⟩ := upTo?_eq_some htarget
          exact ⟨hn, hbracket, hg, rest, rfl⟩
      · cases h
  · cases h

theorem link?_eq_none_of_not_mem (h : ']' ∉ t) : link? t = none := by
  rw [Option.eq_none_iff_forall_ne_some]
  rintro ⟨name, target⟩ hlink
  obtain ⟨-, -, -, rest, rfl⟩ := link?_eq_some hlink
  simp at h

theorem idOfTarget_isInfix (target : Text) : idOfTarget target <:+: target := by
  rw [idOfTarget]
  split
  · exact List.infix_rfl
  · cases hlast : (List.splitOn '/' (Text.stripRight target)).getLast? with
    | none => exact List.nil_infix
    | some last =>
        have hpart := Text.infix_of_mem_splitOn (List.mem_of_getLast? hlast)
        exact hpart.trans (Text.stripRight_isPrefix target).isInfix

theorem idOfTarget_ne_nil (h : target ≠ []) : idOfTarget target ≠ [] := by
  rw [idOfTarget]
  split
  · exact h
  · next hlast => exact hlast

/-! ## Lines -/

/-- The entity that a line shows behind its dash. -/
def ofShown? (shown : Text) : Option Listed :=
  match link? shown with
  | some (name, target) => some ⟨idOfTarget target, name⟩
  | none => if shown = [] then none else some ⟨shown, shown⟩

theorem ofLine?_eq (line : Text) : ofLine? line = (behindDash? line).bind ofShown? := by
  rw [ofLine?]
  cases behindDash? line <;> rfl

theorem subset_of_behindDash? {line shown : Text} (h : behindDash? line = some shown) :
    shown ⊆ line := by
  rw [behindDash?.eq_def] at h
  split at h
  · next r =>
      cases h
      exact fun c hc => List.mem_cons_of_mem _ ((List.dropWhile_sublist _).subset hc)
  · cases h

section Shown

variable {shown : Text} {e : Listed} (h : ofShown? shown = some e)

include h

theorem of_ofShown? :
    (e = ⟨shown, shown⟩ ∧ shown ≠ [] ∧ link? shown = none) ∨
      ∃ target, e.id = idOfTarget target ∧ link? shown = some (e.name, target) := by
  rw [ofShown?] at h
  split at h
  · next name target hlink =>
      cases h
      exact .inr ⟨target, rfl, hlink⟩
  · next hlink =>
      split at h
      · cases h
      · next hne =>
          cases h
          exact .inl ⟨rfl, hne, hlink⟩

theorem eq_or_length_lt_of_ofShown? :
    e = ⟨shown, shown⟩ ∨ e.id.length < shown.length ∧ e.name.length < shown.length := by
  rcases of_ofShown? h with ⟨heq, -, -⟩ | ⟨target, hid, hlink⟩
  · exact .inl heq
  · obtain ⟨-, -, -, rest, hshown⟩ := link?_eq_some hlink
    have hlen := (idOfTarget_isInfix target).length_le
    have htotal := congrArg List.length hshown
    simp only [List.length_cons, List.length_append] at htotal
    rw [hid]
    exact .inr ⟨by omega, by omega⟩

theorem link?_name_of_ofShown? (heq : e.id = e.name) : link? e.name = none := by
  rcases of_ofShown? h with ⟨rfl, -, hlink⟩ | ⟨target, -, hlink⟩
  · exact hlink
  · exact link?_eq_none_of_not_mem (link?_eq_some hlink).2.1

theorem id_ne_nil_of_ofShown? : e.id ≠ [] := by
  rcases of_ofShown? h with ⟨rfl, hne, -⟩ | ⟨target, hid, hlink⟩
  · exact hne
  · rw [hid]
    exact idOfTarget_ne_nil (link?_eq_some hlink).2.2.1

theorem subset_of_ofShown? : e.id ⊆ shown ∧ e.name ⊆ shown := by
  rcases of_ofShown? h with ⟨rfl, -, -⟩ | ⟨target, hid, hlink⟩
  · exact ⟨List.Subset.refl _, List.Subset.refl _⟩
  · obtain ⟨-, -, -, rest, hshown⟩ := link?_eq_some hlink
    have hsub := (idOfTarget_isInfix target).subset
    rw [hid, hshown]
    refine ⟨fun c hc => ?_, fun c hc => by simp [hc]⟩
    have := hsub hc
    simp [this]

end Shown

theorem behindDash?_strip (shown : Text) :
    behindDash? (Text.strip (text "- " ++ shown)) = some (Text.strip shown) := by
  have hleft : Text.stripLeft (text "- " ++ shown) = ['-'] ++ ' ' :: shown :=
    List.dropWhile_cons_of_neg (by decide)
  rw [Text.strip, hleft]
  by_cases hall : Text.AllBlank shown
  · rw [Text.stripRight_append_of_allBlank _ (List.forall_mem_cons.mpr ⟨by decide, hall⟩),
      (Text.strip_eq_nil_iff shown).mpr hall]
    rfl
  · have hblank : Text.stripRight (' ' :: shown) = ' ' :: Text.stripRight shown :=
      Text.stripRight_append_of_ne_nil [' '] ((Text.stripRight_eq_nil_iff shown).not.mpr hall)
    rw [Text.stripRight_append_of_ne_nil _ (by rw [hblank]; exact List.cons_ne_nil _ _), hblank,
      ← Text.stripLeft_stripRight]
    exact congrArg some (List.dropWhile_cons_of_pos (by decide))

/-- A list that was written is read line by line. -/
theorem ofText_written {names : List Text} (hne : names ≠ []) (h : ∀ n ∈ names, '\n' ∉ n) :
    ofText (Text.strip (List.intercalate ['\n'] (names.map fun n => text "- " ++ n))) =
      names.filterMap fun n => ofShown? (Text.strip n) := by
  have hlines : names.map (fun n => text "- " ++ n) ≠ [] := by simpa using hne
  have hdash : ∀ l ∈ names.map fun n => text "- " ++ n, ¬ Text.AllBlank l := by
    intro l hl hall
    obtain ⟨n, -, rfl⟩ := List.mem_map.mp hl
    exact absurd (hall '-' (List.mem_cons_self ..)) (by decide)
  obtain ⟨lines', hjoin, hstrip, hne', hpart⟩ := Text.exists_lines_stripRight hlines hdash
  have hsingle : ∀ l ∈ lines', '\n' ∉ l := by
    intro l' hl' hmem
    obtain ⟨l, hl, hbegins⟩ := hpart l' hl'
    obtain ⟨n, hn, rfl⟩ := List.mem_map.mp hl
    rcases List.mem_append.mp (hbegins.subset hmem) with hmark | hname
    · exact absurd hmark (by decide)
    · exact h n hn hname
  have hleft : Text.stripLeft (List.intercalate ['\n'] (names.map fun n => text "- " ++ n)) =
      List.intercalate ['\n'] (names.map fun n => text "- " ++ n) := by
    obtain ⟨n, rest, rfl⟩ := List.exists_cons_of_ne_nil hne
    cases rest <;> exact List.dropWhile_cons_of_neg (by decide)
  rw [ofText, Text.strip, hleft, hjoin, List.splitOn_intercalate '\n' hsingle hne']
  have hmap : (lines'.filterMap fun line => ofLine? (Text.strip line)) =
      (lines'.map Text.strip).filterMap ofLine? := by rw [List.filterMap_map]; rfl
  rw [hmap, hstrip, List.map_map, List.filterMap_map]
  refine List.filterMap_congr fun n _ => ?_
  show ofLine? (Text.strip (text "- " ++ n)) = _
  rw [ofLine?_eq, behindDash?_strip]
  rfl

end Listed

end Entity

end InverseTemplate
