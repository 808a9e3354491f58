/-
# Where slots end

A slot with braces ends with the brace that closes its group, and a block component with the
closing tag that matches its opening one.  Both are found by counting, and the counting takes
every brace and every tag for what it is, in code or not.  So a slot may end inside a fence or a
code span, if that begins inside of the slot: in front of the slot the lookup among the code
regions has already said that there is no code here.

`Template.closing_outside_code_iff` says exactly when the closing delimiter of a slot lies outside
of all code.  The second of its two conditions is about the one case in which the lookup itself is
wrong: a code span that runs across a fence in front of the slot.
-/
import InverseTemplate.Proofs.Template.Braces
import InverseTemplate.Proofs.Template.Extent
import InverseTemplate.Proofs.Template.Origin

namespace InverseTemplate

/-- The span lies inside the region. -/
def Span.LiesIn (d region : Span) : Prop := region.start ≤ d.start ∧ d.stop ≤ region.stop

instance (d region : Span) : Decidable (d.LiesIn region) :=
  inferInstanceAs (Decidable (region.start ≤ d.start ∧ d.stop ≤ region.stop))

/-- The span of the closing delimiter of a slot: of its closing brace, or of all that stands behind
the opening tag and the children of a block component. -/
def Slot.closing? (t : Text) (s : Slot) : Option Span :=
  match s.content with
  | .component _ _ none => none
  | .component _ _ (some children) =>
      (Tag.scan t s.start).1.map fun tag => ⟨tag.stop + children.length, s.stop⟩
  | _ => some ⟨s.stop - 1, s.stop⟩

/-- What closes a slot with such content: a brace, or a closing tag of the component's name. -/
def SlotContent.ClosedBy (content : SlotContent) (source : Text) : Prop :=
  match content with
  | .component name _ _ =>
      ∃ rest, source = '<' :: '/' :: (name ++ (rest ++ ['>'])) ∧ '>' ∉ rest
  | _ => source = ['\x7d']

theorem SlotContent.closedBy_ofExpression (e source : Text) :
    (ofExpression e).ClosedBy source ↔ source = ['\x7d'] := by
  rw [ofExpression]
  cases Expression.kind e <;> rfl

theorem Slot.closing?_of_ofExpression {t e : Text} {s : Slot} (h : s.content = .ofExpression e) :
    s.closing? t = some ⟨s.stop - 1, s.stop⟩ := by
  rw [closing?, h, SlotContent.ofExpression]
  cases Expression.kind e <;> rfl

theorem Cursor.IsIn.eq_ofOffset {c : Cursor} {t : Text} (h : c.IsIn t) :
    c = Cursor.ofOffset t c.offset := by
  cases c
  exact congrArg _ h

theorem Cursor.IsIn.slice_eq {c : Cursor} {t : Text} (h : c.IsIn t) (stop : Nat) :
    t.slice c.offset stop = c.rest.take (stop - c.offset) := by
  rw [Text.slice, ← h]

theorem Block.closedBy_of_closingTag? {name : Text} {depth : Nat} {t : Text} {c : Cursor}
    (hc : c.IsIn t) {s : Span} (h : closingTag? name depth c = some s) :
    ∃ rest, t.slice s.start s.stop = '<' :: '/' :: (name ++ (rest ++ ['>'])) ∧ '>' ∉ rest := by
  fun_induction closingTag? name depth c with
  | case1 | case2 => simp at h
  | case3 c first more hrest hmentions inner n hn =>
      cases h
      rw [mentions, Bool.and_eq_true, List.isPrefixOf_iff_prefix] at hmentions
      obtain ⟨⟨behind, hbehind⟩, -⟩ := hmentions
      have hinner : inner.rest = behind := by
        show c.rest.drop (name.length + 2) = behind
        rw [← hbehind, List.drop_left' (by simp)]
      obtain ⟨hlt, hclose, hnot⟩ := List.findIdx?_eq_some_iff_getElem.mp hn
      refine ⟨inner.rest.take n, ?_, ?_⟩
      · have htag : inner.rest.take (n + 1) = inner.rest.take n ++ ['>'] := by
          rw [List.take_add_one, List.getElem?_eq_getElem hlt, of_decide_eq_true hclose]
          rfl
        show t.slice c.offset (inner.offset + n + 1) = _
        rw [hc.slice_eq, ← hbehind, ← htag, hinner,
          show inner.offset + n + 1 - c.offset = (['<', '/'] ++ name).length + (n + 1) by
            simp only [inner, Cursor.advance, List.length_append, List.length_cons,
              List.length_nil]
            omega,
          List.take_length_add_append]
        simp
      · intro hmem
        obtain ⟨i, hi, heq⟩ := List.getElem_of_mem hmem
        rw [List.length_take] at hi
        rw [List.getElem_take] at heq
        have := hnot i (by omega)
        simp [heq] at this
  | case4 c _ _ _ _ inner n _ outer ih => exact ih ((hc.advance _).advance _) h
  | case5 _ c _ _ _ _ _ _ _ ih => exact ih (hc.advance _) h
  | case6 _ c _ _ _ _ _ _ ih => exact ih (hc.advance _) h
  | case7 _ c _ _ _ _ _ ih => exact ih (hc.advance _) h

theorem slice_closingBrace {c : Cursor} {t inner : Text} {n : Nat} (hc : c.IsIn t)
    (hrest : c.rest = '\x7b' :: inner) (hn : braceLength? 0 inner = some n) :
    t.slice (c.offset + n + 1) (c.offset + n + 2) = ['\x7d'] := by
  obtain ⟨content, behind, -, rfl, rfl⟩ := exists_balanced hn
  have hplace : (c.advance (content.length + 1)).rest = '\x7d' :: behind := by
    show c.rest.drop (content.length + 1) = _
    rw [hrest, List.drop_succ_cons, List.drop_left]
  have hslice := (hc.advance (content.length + 1)).slice_eq (c.offset + content.length + 2)
  rw [hplace, Cursor.offset_advance,
    show c.offset + content.length + 2 - (c.offset + (content.length + 1)) = 1 by omega] at hslice
  exact hslice

theorem closingTag?_of_closing {c : Cursor} {t : Text} {s : Slot} {d : Span} (hc : c.IsIn t)
    (hs : componentAt? c = some s) (hd : s.closing? t = some d) :
    ∃ name attributes children c', s.content = .component name attributes children ∧ c'.IsIn t ∧
      c.offset < c'.offset ∧ Block.closingTag? name 0 c' = some d ∧ d.stop = s.stop := by
  rw [componentAt?] at hs
  split at hs
  · cases hs
  · next tag ht =>
      dsimp only at hs
      split at hs
      · cases hs
        simp [Slot.closing?] at hd
      · obtain ⟨closing, hclosing, rfl⟩ := Option.map_eq_some_iff.mp hs
        have hscan : (Tag.scan t c.offset).1 = some tag := by
          rw [Tag.scan, ← hc.eq_ofOffset]
          exact ht
        have hlt := Tag.offset_lt_stop_of_scanAt ht
        have hle := Tag.stop_le_limit_of_scanAt ht
        have hbounds := Block.le_start_of_closingTag? hclosing
        have hlimit := Block.stop_le_limit_of_closingTag? hclosing
        rw [Cursor.limit] at hle
        rw [Cursor.limit_advance (by omega), Cursor.limit] at hlimit
        -- the children reach from the opening tag to the closing one
        have hd' : d = closing := by
          simp only [Slot.closing?, hscan, Option.map_some, Option.some.injEq, List.length_take,
            Cursor.advance, List.length_drop] at hd hbounds
          rw [← hd]
          cases closing
          simp only [Span.mk.injEq, and_true] at hbounds hlimit ⊢
          omega
        subst hd'
        refine ⟨_, _, _, _, rfl, hc.advance _, ?_, hclosing, rfl⟩
        rw [Cursor.offset_advance]
        omega

namespace Template

variable {t : Text} {s : Slot} {d : Span}

theorem closedBy_closing (h : s ∈ (ofText t).slots) (hd : s.closing? t = some d) :
    s.content.ClosedBy (t.slice d.start d.stop) ∧ s.start < d.start ∧ d.start < d.stop ∧
      d.stop = s.stop := by
  obtain ⟨c, hc, -, hread⟩ := exists_readAt h
  have hstart := hread.start_eq
  cases hread with
  | brace inner n hrest hn hcomment hne heq =>
      subst heq
      rw [Slot.closing?_of_ofExpression rfl] at hd
      cases hd
      refine ⟨(SlotContent.closedBy_ofExpression _ _).mpr (slice_closingBrace hc hrest hn),
        ?_, Nat.lt_succ_self _, rfl⟩
      show c.offset < c.offset + n + 1
      omega
  | component hs =>
      obtain ⟨name, attributes, children, c', hcontent, hc', hlt, hclosing, hstop⟩ :=
        closingTag?_of_closing hc hs hd
      obtain ⟨hle, hpos⟩ := Block.le_start_of_closingTag? hclosing
      refine ⟨?_, by omega, hpos, hstop⟩
      rw [hcontent]
      exact Block.closedBy_of_closingTag? hc' hclosing

/-- The closing delimiter of a slot lies outside of all code exactly if it lies outside of the code
that begins inside of the slot and outside of the code that runs across a fence in front of it. -/
theorem closing_outside_code_iff (h : s ∈ (ofText t).slots) (hd : s.closing? t = some d) :
    s.content.ClosedBy (t.slice d.start d.stop) ∧ d.stop = s.stop ∧
      ((∀ region ∈ codeRegions t, ¬ d.LiesIn region) ↔
        (∀ region ∈ codeRegions t, s.start < region.start → ¬ d.LiesIn region) ∧
        ∀ region ∈ codeRegions t, ∀ block ∈ fences t,
          region.start < block.start → block.stop ≤ s.start → ¬ d.LiesIn region) := by
  obtain ⟨hclosed, hstart, hpos, hstop⟩ := closedBy_closing h hd
  refine ⟨hclosed, hstop, ?_⟩
  constructor
  · intro hfree
    exact ⟨fun region hregion _ => hfree region hregion,
      fun region hregion _ _ _ _ => hfree region hregion⟩
  · rintro ⟨hinside, hacross⟩ region hregion hlies
    by_cases hbegins : s.start < region.start
    · exact hinside region hregion hbegins hlies
    · -- the lookup at the start of the slot did not find this region
      obtain ⟨c, -, hnone, hread⟩ := exists_readAt h
      rw [← hread.start_eq] at hnone
      have hlt : s.start < region.stop := by
        have := hlies.2
        omega
      obtain ⟨-, block, hblock, h1, h2⟩ :=
        mem_codeSpans_of_not_containing hregion (by omega) hlt hnone
      exact hacross region hregion block hblock h1 h2 hlies

/-- The code in a call: its braces belong together, and the slot ends behind it. -/
theorem closing_outside_code_iff_call :
    let t := text "\x7bf(\x60\x7b\x7d\x60)\x7d"
    let s : Slot := ⟨.conditional (text "f(\x60\x7b\x7d\x60)"), t, 0, 9⟩
    (ofText t).slots = [s] ∧ codeRegions t = [⟨3, 7⟩] ∧ s.closing? t = some ⟨8, 9⟩ ∧
      ∀ region ∈ codeRegions t, ¬ Span.LiesIn ⟨8, 9⟩ region := by
  intro t s
  have hregions : codeRegions t = [⟨3, 7⟩] := by decide +kernel
  have hslots : (ofText t).slots = [s] := by decide +kernel
  have hs : s ∈ (ofText t).slots := by
    rw [hslots]
    exact List.mem_singleton_self s
  obtain ⟨-, -, hiff⟩ := closing_outside_code_iff (d := ⟨8, 9⟩) hs rfl
  refine ⟨hslots, hregions, rfl, hiff.mpr ⟨?_, ?_⟩⟩
  · rw [hregions]
    decide
  · rw [hregions]
    decide +kernel

/-- A fence inside of a block component shows a closing tag, and the component ends there. -/
theorem closing_inside_fence :
    let t := text "<Card>\n\x60\x60\x60\n</Card>\n\x60\x60\x60\n</Card>"
    let s : Slot := ⟨.component (text "Card") [] (some (text "\n\x60\x60\x60\n")),
      text "<Card>\n\x60\x60\x60\n</Card>", 0, 18⟩
    s ∈ (ofText t).slots ∧ s.closing? t = some ⟨11, 18⟩ ∧
      ⟨7, 22⟩ ∈ fences t ∧ ⟨7, 22⟩ ∈ codeRegions t ∧ Span.LiesIn ⟨11, 18⟩ ⟨7, 22⟩ := by
  intro t s
  exact ⟨by decide +kernel, by decide +kernel, by decide +kernel, by decide +kernel, by decide⟩

end Template

end InverseTemplate
