/-
# A trimmed text is a row of words

A text that neither begins nor ends with a blank is a word, or a word, some blanks and another such
text.  `WordRow` is that reading of it, so that what is said about the words of a text is an
induction with one case for each of the two.
-/
import InverseTemplate.Proofs.Text.Strip
import Mathlib.Data.List.Basic

namespace InverseTemplate

namespace Text

/-- A word: characters that are not blank, at least one. -/
def Solid (w : Text) : Prop := w ≠ [] ∧ ∀ c ∈ w, isBlank c = false

/-- A word, or words with blanks between each two of them. -/
inductive WordRow : Text → Prop
  | word {w : Text} : Solid w → WordRow w
  | gap {w b rest : Text} : Solid w → b ≠ [] → AllBlank b → WordRow rest →
      WordRow (w ++ (b ++ rest))

theorem Solid.exists_cons {w : Text} (h : Solid w) :
    ∃ c r, w = c :: r ∧ isBlank c = false ∧ ∀ d ∈ r, isBlank d = false := by
  obtain ⟨hne, hall⟩ := h
  cases w with
  | nil => exact absurd rfl hne
  | cons c r =>
      exact ⟨c, r, rfl, hall c (List.mem_cons_self ..),
        fun d hd => hall d (List.mem_cons_of_mem _ hd)⟩

theorem WordRow.exists_cons {t : Text} (h : WordRow t) :
    ∃ c r, t = c :: r ∧ isBlank c = false := by
  cases h with
  | word hw =>
      obtain ⟨c, r, rfl, hc, -⟩ := hw.exists_cons
      exact ⟨c, r, rfl, hc⟩
  | gap hw _ _ _ =>
      obtain ⟨c, r, rfl, hc, -⟩ := hw.exists_cons
      exact ⟨c, _, rfl, hc⟩

theorem head_dropWhile_imp {p : Char → Bool} {t r : Text} {c : Char}
    (h : t.dropWhile p = c :: r) : p c = false := by
  refine head?_dropWhile_eq_false (t := t) ?_
  rw [h]
  rfl

theorem exists_blanks_append {d : Char} {s : Text} (hd : isBlank d = true)
    (hlast : ∀ e, (d :: s).getLast? = some e → isBlank e = false) :
    ∃ b e u, s = b ++ e :: u ∧ AllBlank (d :: b) ∧ isBlank e = false := by
  have hsplit := List.takeWhile_append_dropWhile (p := isBlank) (l := s)
  have hblank : AllBlank (d :: s.takeWhile isBlank) := by
    intro f hf
    rcases List.mem_cons.mp hf with rfl | hf
    · exact hd
    · exact List.mem_takeWhile_imp hf
  cases hs : s.dropWhile isBlank with
  | nil =>
      rw [hs, List.append_nil] at hsplit
      rw [hsplit] at hblank
      obtain ⟨e, he⟩ : ∃ e, (d :: s).getLast? = some e := ⟨_, List.getLast?_cons⟩
      have hfalse := hlast e he
      rw [hblank e (List.mem_of_getLast? he)] at hfalse
      exact absurd hfalse (by simp)
  | cons e u =>
      rw [hs] at hsplit
      exact ⟨_, e, u, hsplit.symm, hblank, head_dropWhile_imp hs⟩

/-- A text without blanks at its ends is a row of words. -/
theorem wordRow_of_ends {c : Char} {r : Text} (hc : isBlank c = false)
    (hlast : ∀ d, (c :: r).getLast? = some d → isBlank d = false) : WordRow (c :: r) := by
  -- one word and the blanks behind it are taken off at a time
  induction hl : r.length using Nat.strongRecOn generalizing c r with
  | ind l ih =>
      have hword : Solid (c :: r.takeWhile fun d => !isBlank d) := by
        refine ⟨by simp, ?_⟩
        intro d hd
        rcases List.mem_cons.mp hd with rfl | hd
        · exact hc
        · simpa using List.mem_takeWhile_imp hd
      have hsplit := List.takeWhile_append_dropWhile (p := fun d => !isBlank d) (l := r)
      cases hrest : r.dropWhile fun d => !isBlank d with
      | nil =>
          rw [hrest, List.append_nil] at hsplit
          rw [hsplit] at hword
          exact .word hword
      | cons d s =>
          rw [hrest] at hsplit
          have hd : isBlank d = true := by simpa using head_dropWhile_imp hrest
          obtain ⟨b, e, u, rfl, hblank, he⟩ := exists_blanks_append hd fun f hf => by
            refine hlast f ?_
            rw [← hsplit, ← List.cons_append, List.getLast?_append_cons]
            exact hf
          have hcut : c :: r = (c :: r.takeWhile fun d => !isBlank d) ++ ((d :: b) ++ e :: u) := by
            rw [List.cons_append, List.cons_append, hsplit]
          have hrow : WordRow (e :: u) := by
            refine ih u.length ?_ he ?_ rfl
            · have hlen := congrArg List.length hsplit
              simp only [List.length_append, List.length_cons] at hlen
              omega
            · intro f hf
              refine hlast f ?_
              rw [hcut, ← List.append_assoc, List.getLast?_append_cons]
              exact hf
          rw [hcut]
          exact .gap hword (by simp) hblank hrow

theorem wordRow_strip {t : Text} (h : strip t ≠ []) : WordRow (strip t) := by
  cases hs : strip t with
  | nil => exact absurd hs h
  | cons c r =>
      have hfix := strip_strip t
      refine wordRow_of_ends (isBlank_head_of_strip_eq hfix hs) ?_
      intro d hd
      exact isBlank_getLast_of_strip_eq hfix (by rw [hs]; exact hd)

end Text

end InverseTemplate
