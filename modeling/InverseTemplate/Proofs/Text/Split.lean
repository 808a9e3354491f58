/-
# Splitting and joining

A separator parts a text into pieces that do not hold it, and each of them is a stretch of the
text.  A fact about texts that is to be shown piece by piece is shown by `Text.induction_splitOn`.
Of pieces that are joined it is said how the text begins and ends and what is in it.
-/
import InverseTemplate.Text.Basic

namespace InverseTemplate

namespace Text

/-! ## Joining -/

theorem infix_intercalate_of_mem {sep p : Text} {pieces : List Text} (h : p ∈ pieces) :
    p <:+: sep.intercalate pieces := by
  induction pieces with
  | nil => exact absurd h List.not_mem_nil
  | cons piece rest ih =>
      cases rest with
      | nil => simp [List.mem_singleton.mp h]
      | cons next rest =>
          rw [List.intercalate_cons_cons]
          rcases List.mem_cons.mp h with rfl | h
          · exact (List.prefix_append_of_prefix (List.prefix_append p sep)).isInfix
          · exact (ih h).trans (List.suffix_append _ _).isInfix

theorem intercalate_append {pieces : List Text} (hne : pieces ≠ []) (sep next : Text)
    (more : List Text) : sep.intercalate (pieces ++ next :: more) =
      sep.intercalate pieces ++ sep ++ sep.intercalate (next :: more) := by
  induction pieces with
  | nil => exact absurd rfl hne
  | cons piece rest ih =>
      cases rest with
      | nil => simp
      | cons second rest =>
          rw [List.cons_append, List.intercalate_cons_of_ne_nil (by simp), ih (by simp)]
          simp

theorem head?_intercalate {sep p : Text} {ps : List Text} (hp : p ≠ []) :
    (sep.intercalate (p :: ps)).head? = p.head? := by
  obtain ⟨c, r, rfl⟩ := List.exists_cons_of_ne_nil hp
  cases ps with
  | nil => rw [List.intercalate_singleton]
  | cons q rest =>
      rw [List.intercalate_cons_cons, List.cons_append, List.cons_append]
      rfl

theorem getLast?_intercalate {sep : Text} {ps : List Text} {c : Char} (hne : ps ≠ [])
    (h : ∀ p ∈ ps, p.getLast? = some c) : (sep.intercalate ps).getLast? = some c := by
  induction ps with
  | nil => exact absurd rfl hne
  | cons p rest ih =>
      cases rest with
      | nil =>
          rw [List.intercalate_singleton]
          exact h p (List.mem_cons_self ..)
      | cons q rest =>
          have hlast := ih (List.cons_ne_nil _ _) fun p hp => h p (List.mem_cons_of_mem _ hp)
          rw [List.intercalate_cons_cons, List.getLast?_append, hlast]
          rfl

theorem not_mem_intercalate {sep : Text} {ps : List Text} {c : Char} (hsep : c ∉ sep)
    (h : ∀ p ∈ ps, c ∉ p) : c ∉ sep.intercalate ps := by
  induction ps with
  | nil => exact List.not_mem_nil
  | cons p rest ih =>
      obtain ⟨hp, hrest⟩ := List.forall_mem_cons.mp h
      cases rest with
      | nil => rwa [List.intercalate_singleton]
      | cons q rest =>
          simp only [List.intercalate_cons_cons, List.mem_append, not_or]
          exact ⟨⟨hp, hsep⟩, ih hrest⟩

/-! ## Splitting -/

theorem not_mem_of_mem_splitOn {sep : Char} {t p : Text} (h : p ∈ t.splitOn sep) : sep ∉ p := by
  induction t generalizing p with
  | nil =>
      rw [List.splitOn_nil, List.mem_singleton] at h
      exact h ▸ List.not_mem_nil
  | cons c r ih =>
      rw [List.splitOn_cons_eq_if_modifyHead] at h
      split at h
      · rcases List.mem_cons.mp h with rfl | h
        · exact List.not_mem_nil
        · exact ih h
      · next hc =>
          obtain ⟨piece, pieces, hs⟩ := List.exists_cons_of_ne_nil (List.splitOn_ne_nil sep r)
          rw [hs, List.modifyHead_cons] at h
          rcases List.mem_cons.mp h with rfl | h
          · have hne : sep ≠ c := fun heq => hc (beq_iff_eq.mpr heq.symm)
            exact List.not_mem_cons_of_ne_of_not_mem hne (ih (hs ▸ List.mem_cons_self ..))
          · exact ih (hs ▸ List.mem_cons_of_mem _ h)

theorem infix_of_mem_splitOn {sep : Char} {t p : Text} (h : p ∈ t.splitOn sep) : p <:+: t := by
  have hinfix : p <:+: [sep].intercalate (t.splitOn sep) := infix_intercalate_of_mem h
  rwa [List.intercalate_splitOn] at hinfix

/-- What holds of every piece alone, and of a piece and the separator in front of a text of which it
holds, holds of every text. -/
theorem induction_splitOn {P : Text → Prop} (sep : Char) (last : ∀ piece, sep ∉ piece → P piece)
    (more : ∀ piece rest, sep ∉ piece → P rest → P (piece ++ sep :: rest)) (t : Text) : P t := by
  have hpieces : ∀ pieces : List Text, pieces ≠ [] → (∀ piece ∈ pieces, sep ∉ piece) →
      P ([sep].intercalate pieces) := by
    intro pieces hne hfree
    induction pieces with
    | nil => exact absurd rfl hne
    | cons piece rest ih =>
        obtain ⟨hpiece, hrest⟩ := List.forall_mem_cons.mp hfree
        cases rest with
        | nil =>
            rw [List.intercalate_singleton]
            exact last piece hpiece
        | cons next rest =>
            rw [List.intercalate_cons_cons, List.append_assoc]
            exact more piece _ hpiece (ih (List.cons_ne_nil _ _) hrest)
  have hall := hpieces (t.splitOn sep) (List.splitOn_ne_nil sep t) fun _ => not_mem_of_mem_splitOn
  rwa [List.intercalate_splitOn] at hall

end Text

end InverseTemplate
