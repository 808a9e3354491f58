/-
# Plain blanks

Spaces, tabs and line feeds are the blanks that anchors are made for.  A stretch of them is read
line by line (`PlainBlanks`): spaces and tabs up to a line feed, and so on, with a last line that
may be empty.  That is the way the matchers walk through it.
-/
import InverseTemplate.Proofs.Text.Strip

namespace InverseTemplate

namespace Text

/-- All blanks are spaces, tabs and line feeds. -/
def PlainSpacing (t : Text) : Prop :=
  ∀ c ∈ t, isBlank c = true → c = ' ' ∨ c = '\t' ∨ c = '\n'

instance (t : Text) : Decidable (PlainSpacing t) :=
  inferInstanceAs (Decidable (∀ c ∈ t, isBlank c = true → c = ' ' ∨ c = '\t' ∨ c = '\n'))

/-- Spaces and tabs only. -/
def Horizontal (t : Text) : Prop := ∀ c ∈ t, isHorizontal c = true

/-- Spaces, tabs and line feeds, read line by line. -/
inductive PlainBlanks : Text → Prop
  | line {h : Text} : Horizontal h → PlainBlanks h
  | feed {h s : Text} : Horizontal h → PlainBlanks s → PlainBlanks (h ++ '\n' :: s)

theorem Horizontal.not_mem {h : Text} (hh : Horizontal h) : '\n' ∉ h :=
  fun hmem => absurd (hh _ hmem) (by decide)

theorem PlainBlanks.cons {c : Char} {s : Text} (hc : isHorizontal c = true ∨ c = '\n')
    (hs : PlainBlanks s) : PlainBlanks (c :: s) := by
  rcases hc with hc | rfl
  · cases hs with
    | line hh => exact .line (List.forall_mem_cons.mpr ⟨hc, hh⟩)
    | @feed h s hh hs => exact .feed (h := c :: h) (List.forall_mem_cons.mpr ⟨hc, hh⟩) hs
  · exact .feed (h := []) (by simp [Horizontal]) hs

theorem plainBlanks_of_allBlank {b : Text} (hb : AllBlank b) (hp : PlainSpacing b) :
    PlainBlanks b := by
  induction b with
  | nil => exact .line (by simp [Horizontal])
  | cons c s ih =>
      refine .cons ?_ (ih (fun d hd => hb d (List.mem_cons_of_mem _ hd))
        (fun d hd => hp d (List.mem_cons_of_mem _ hd)))
      rcases hp c (List.mem_cons_self ..) (hb c (List.mem_cons_self ..)) with rfl | rfl | rfl
      · exact .inl rfl
      · exact .inl rfl
      · exact .inr rfl

theorem PlainBlanks.horizontal {b : Text} (hb : PlainBlanks b) (h : '\n' ∉ b) : Horizontal b := by
  cases hb with
  | line hh => exact hh
  | feed _ _ => simp at h

theorem PlainBlanks.exists_lastLine {b : Text} (hb : PlainBlanks b) (h : '\n' ∈ b) :
    ∃ a l, b = (a ++ ['\n']) ++ l ∧ Horizontal l := by
  induction hb with
  | line hh => exact absurd h hh.not_mem
  | @feed g s hg hs ih =>
      by_cases hmem : '\n' ∈ s
      · obtain ⟨a, l, rfl, hl⟩ := ih hmem
        exact ⟨g ++ '\n' :: a, l, by simp, hl⟩
      · exact ⟨g, s, by simp, hs.horizontal hmem⟩

end Text

end InverseTemplate
