/-
# A scan of a filled template

Filling the slots of a template with values and scanning the text that results is the round trip
behind extraction.  The scan gives back every value, up to the first slot whose value cannot be told
from the literal behind it (`Captures.value?_ofParts`).

The scan is not exactly between two parts of the text when it gets to a slot.  An anchor may leave
blanks of its literal behind, and a gap may take blanks of the text that follows when the value in
between is empty.  `Ready` is the invariant: the cursor is off by blanks only, and if it is ahead,
then by whole lines or within one.  The second half matters for the next literal, whose line guard
has to find the beginning of a line that is still ahead of the cursor.
-/
import InverseTemplate.Capture
import InverseTemplate.Proofs.Anchor.Literal

namespace InverseTemplate

/-! ## Filling a template -/

/-- The values, each with the literal behind its slot. -/
def fillParts : List (Slot × Text) → List Text → Text
  | (_, literal) :: parts, v :: values => v ++ (literal ++ fillParts parts values)
  | _, _ => []

/-- The literals of a template with a value between each two of them. -/
def Template.fill (template : Template) (values : List Text) : Text :=
  template.opening ++ fillParts template.parts values

/-- A value that can be told from the literal behind its slot. -/
structure Legible (isLast : Bool) (literal v : Text) : Prop where
  strip_eq : Text.strip v = v
  one_line : '\n' ∉ v
  plain : Text.PlainSpacing literal
  /-- Only behind the last slot there may be nothing. -/
  nonempty : isLast = false → literal ≠ []
  /-- The text behind the slot does not begin inside the value. -/
  fresh : ∀ c, (Text.strip literal).head? = some c → c ∉ v
  /-- In front of a mere gap there is a value, and no gap of its kind inside. -/
  gap : isLast = false → Text.AllBlank literal →
    v ≠ [] ∧ ('\n' ∉ literal → ∀ d ∈ v, Text.isHorizontal d = false)

/-! ## Where the cursor stands -/

/-- The cursor stands between the two halves of a text, but for blanks. -/
inductive Ready (front rest : Text) (cursor : Nat) : Prop
  /-- Blanks at the end of the first half are not used up. -/
  | behind {a b : Text} : front = a ++ b → Text.AllBlank b → cursor = a.length →
      Ready front rest cursor
  /-- Blanks at the beginning of the second half are used up, within a line or up to the end of
  one. -/
  | ahead {b r : Text} : rest = b ++ r → Text.AllBlank b → ('\n' ∉ b ∨ ∃ a, b = a ++ ['\n']) →
      cursor = front.length + b.length → Ready front rest cursor

theorem Text.slice_append (a b c : Text) :
    Text.slice (a ++ (b ++ c)) a.length (a ++ b).length = b := by
  rw [Text.slice, List.drop_left, List.length_append, Nat.add_sub_cancel_left, List.take_left]

namespace Ready

variable {front rest : Text} {cursor : Nat}

theorem start (rest : Text) : Ready [] rest 0 :=
  .behind (a := []) (b := []) rfl (by simp [Text.AllBlank]) rfl

theorem exists_behind {v r : Text} (h : Ready front (v ++ r) cursor) (hv : Text.strip v = v)
    (hne : v ≠ []) : ∃ a b, front = a ++ b ∧ Text.AllBlank b ∧ cursor = a.length := by
  cases h with
  | behind hfront hb hcursor => exact ⟨_, _, hfront, hb, hcursor⟩
  | @ahead b r' hrest hb _ hcursor =>
      cases b with
      | nil => exact ⟨front, [], by simp, by simp [Text.AllBlank], hcursor⟩
      | cons d s =>
          cases v with
          | nil => exact absurd rfl hne
          | cons c w =>
              obtain ⟨rfl, -⟩ := List.cons.inj hrest
              have hc := Text.isBlank_head_of_strip_eq hv rfl
              rw [hb c (List.mem_cons_self ..)] at hc
              exact absurd hc (by simp)

theorem le_length (h : Ready front rest cursor) : cursor ≤ (front ++ rest).length := by
  cases h with
  | behind hfront _ hcursor =>
      rw [hfront, hcursor]
      simp
  | ahead hrest _ _ hcursor =>
      rw [hrest, hcursor]
      simp

theorem contentStart_eq {v r : Text} (h : Ready front (v ++ r) cursor) (hv : Text.strip v = v)
    (hne : v ≠ []) : contentStart (front ++ (v ++ r)) cursor = front.length := by
  obtain ⟨a, b, rfl, hb, rfl⟩ := h.exists_behind hv hne
  obtain ⟨c, w, rfl⟩ := List.exists_cons_of_ne_nil hne
  have hc := Text.isBlank_head_of_strip_eq hv rfl
  unfold contentStart
  rw [List.append_assoc, List.drop_left, List.takeWhile_append_of_pos hb, List.cons_append,
    List.takeWhile_cons_of_neg (by simp [hc]), List.append_nil, List.length_append]

/-- From the cursor to the end of the blanks behind a value, a character that is not blank and not
in the value does not occur. -/
theorem getElem?_ne {v s w : Text} {c : Char} {k : Nat} (h : Ready front (v ++ (s ++ w)) cursor)
    (hs : Text.AllBlank s) (hc : Text.isBlank c = false) (hv : c ∉ v) (hle : cursor ≤ k)
    (hlt : k < (front ++ (v ++ s)).length) : (front ++ (v ++ (s ++ w)))[k]? ≠ some c := by
  intro hk
  by_cases hfront : k < front.length
  · rw [List.getElem?_append_left hfront] at hk
    cases h with
    | @behind a b heq hb hcursor =>
        rw [heq, List.getElem?_append_right (by omega)] at hk
        rw [hb c (List.mem_of_getElem? hk)] at hc
        exact absurd hc (by simp)
    | ahead _ _ _ hcursor => omega
  · rw [List.length_append] at hlt
    rw [List.getElem?_append_right (by omega), ← List.append_assoc,
      List.getElem?_append_left (by omega)] at hk
    rcases List.mem_append.mp (List.mem_of_getElem? hk) with hmem | hmem
    · exact hv hmem
    · rw [hs c hmem] at hc
      exact absurd hc (by simp)

theorem le_outer {v literal u outer inner : Text} (h : Ready front (v ++ (literal ++ u)) cursor)
    (hv : Text.strip v = v) (hne : Text.strip literal ≠ [])
    (hs : Text.LeadSplit (Text.leadingBlanks literal) outer inner) :
    cursor ≤ ((front ++ v) ++ outer).length := by
  rw [List.length_append, List.length_append]
  cases h with
  | behind hfront _ hcursor =>
      rw [hfront, List.length_append]
      omega
  | @ahead b r hrest hb hends hcursor =>
      cases v with
      | cons c w =>
          obtain ⟨a, b', hfront, -, ha⟩ :=
            exists_behind (.ahead hrest hb hends hcursor) hv (by simp)
          rw [hfront, List.length_append]
          omega
      | nil =>
          have hcut := Text.leadingBlanks_append_strip_append_trailingBlanks hne
          obtain ⟨c, w, hwords, hc⟩ := (Text.wordRow_strip hne).exists_cons
          have heq : Text.leadingBlanks literal ++ c :: (w ++ (Text.trailingBlanks literal ++ u)) =
              b ++ r := by
            rw [← hrest]
            conv => rhs; rw [← hcut, hwords]
            simp
          have := hs.length_le heq hc hb hends
          rw [List.length_nil]
          omega

theorem of_gap {x g u : Text} {gap : Gap} {n : Nat} (hg : Text.AllBlank g)
    (h : gap.length? (g ++ u) = some n) : Ready (x ++ g) u (x.length + n) := by
  obtain ⟨⟨hlen, hblank⟩, -⟩ := blankFor_of_length? h
  by_cases hn : n ≤ g.length
  · refine .behind (a := x ++ g.take n) (b := g.drop n) ?_ ?_ ?_
    · rw [List.append_assoc, List.take_append_drop]
    · exact fun c hc => hg c (List.mem_of_mem_drop hc)
    · rw [List.length_append, List.length_take, Nat.min_eq_left hn]
  · have htake : (g ++ u).take n = g ++ u.take (n - g.length) := by
      rw [List.take_append, List.take_of_length_le (by omega)]
    rw [List.length_append] at hlen
    refine .ahead (b := u.take (n - g.length)) (r := u.drop (n - g.length)) ?_ ?_ ?_ ?_
    · rw [List.take_append_drop]
    · exact fun c hc => hblank c (by rw [htake]; exact List.mem_append_right _ hc)
    · rcases Gap.take_of_length? h with ⟨-, hh⟩ | ⟨a, ha⟩
      · rw [htake] at hh
        exact .inl fun hmem => absurd (hh _ (List.mem_append_right _ hmem)) (by decide)
      · -- what is taken of the second half is not empty, so it ends as the match does
        rw [htake] at ha
        have hne : u.take (n - g.length) ≠ [] := by
          intro h0
          have := congrArg List.length h0
          rw [List.length_take, List.length_nil] at this
          omega
        refine .inr ⟨(u.take (n - g.length)).dropLast, ?_⟩
        have hlast := congrArg List.getLast? ha
        rw [List.getLast?_append, List.getLast?_concat, List.getLast?_eq_some_getLast hne,
          Option.some_or, Option.some.injEq] at hlast
        rw [← hlast, List.dropLast_concat_getLast]
    · rw [List.length_append, List.length_take]
      omega

theorem strip_slice {v s w : Text} (h : Ready front (v ++ (s ++ w)) cursor)
    (hv : Text.strip v = v) (hs : Text.AllBlank s) (hle : cursor ≤ (front ++ (v ++ s)).length) :
    Text.strip (Text.slice (front ++ (v ++ (s ++ w))) cursor (front ++ (v ++ s)).length) = v := by
  have hbehind : ∀ {a b : Text}, front = a ++ b → Text.AllBlank b → cursor = a.length →
      Text.strip (Text.slice (front ++ (v ++ (s ++ w))) cursor (front ++ (v ++ s)).length) = v := by
    rintro a b rfl hb rfl
    have hcut : Text.slice ((a ++ b) ++ (v ++ (s ++ w))) a.length ((a ++ b) ++ (v ++ s)).length =
        b ++ (v ++ s) := by
      have := Text.slice_append a (b ++ (v ++ s)) w
      simpa only [List.append_assoc] using this
    rw [hcut, Text.strip_append_append hb hs, hv]
  cases h with
  | behind hfront hb hcursor => exact hbehind hfront hb hcursor
  | @ahead b r hrest hb hends hcursor =>
      cases v with
      | nil =>
          have hcut : Text.slice (front ++ (s ++ w)) cursor (front ++ s).length =
              s.drop b.length := by
            have hlen : b.length ≤ s.length := by
              simp only [List.nil_append, List.length_append] at hle
              omega
            rw [Text.slice, hcursor, ← List.drop_drop, List.drop_left,
              List.drop_append_of_le_length hlen]
            refine List.take_left' ?_
            rw [List.length_drop, List.length_append]
            omega
          rw [List.nil_append, List.nil_append, hcut]
          exact (Text.strip_eq_nil_iff _).mpr fun c hc => hs c (List.mem_of_mem_drop hc)
      | cons c u =>
          obtain ⟨a, b', hfront, hb', ha⟩ :=
            exists_behind (.ahead hrest hb hends hcursor) hv (by simp)
          exact hbehind hfront hb' ha

/-- The text behind a value is found from the cursor on, and right behind the value but for
blanks. -/
theorem exists_hit {v literal u : Text} {a : TextAnchor} (ha : Anchor.ofLiteral literal = .text a)
    (hp : Text.PlainSpacing literal) (hready : Ready front (v ++ (literal ++ u)) cursor)
    (hv : Text.strip v = v) (hfresh : ∀ c, (Text.strip literal).head? = some c → c ∉ v) :
    ∃ stop next, (searchOutside a.matcher [] (front ++ (v ++ (literal ++ u))) cursor).hit =
        some ⟨stop, next⟩ ∧
      Text.strip (Text.slice (front ++ (v ++ (literal ++ u))) cursor stop) = v ∧
      Ready (front ++ (v ++ literal)) u next := by
  have hne := (Anchor.ofLiteral_eq_text_iff.mp ha).1
  have hcut := Text.leadingBlanks_append_strip_append_trailingBlanks hne
  have hlead := Text.allBlank_leadingBlanks literal
  have htrail := Text.allBlank_trailingBlanks literal
  obtain ⟨outer, inner, hs⟩ := hp.exists_leadSplit
  have ho := hready.le_outer hv hne hs
  have hlit : literal ++ u = outer ++ (inner ++ (Text.strip literal ++
      (Text.trailingBlanks literal ++ u))) := by
    conv => lhs; rw [← hcut, hs.eq_append]
    simp only [List.append_assoc]
  have hfree : ∀ k, cursor ≤ k → k < ((front ++ v) ++ Text.leadingBlanks literal).length →
      ((front ++ v) ++ (literal ++ u))[k]? ≠ (Text.strip literal).head? := by
    intro k h1 h2
    obtain ⟨c, w, hwords, hc⟩ := (Text.wordRow_strip hne).exists_cons
    have hcv : c ∉ v := hfresh c (by rw [hwords]; rfl)
    have hlead' : literal ++ u = Text.leadingBlanks literal ++
        (Text.strip literal ++ (Text.trailingBlanks literal ++ u)) := by
      rw [hlit, hs.eq_append, List.append_assoc]
    rw [hlead'] at hready ⊢
    rw [List.append_assoc] at h2 ⊢
    rw [hwords] at hready ⊢
    exact hready.getElem?_ne hlead hc hcv h1 h2
  obtain ⟨k, hsearch, hk⟩ := TextAnchor.search_literal (u := u) ha hp hs ho hfree
  rw [List.append_assoc] at hsearch
  refine ⟨((front ++ v) ++ outer).length,
    ((front ++ v) ++ (Text.leadingBlanks literal ++ Text.strip literal)).length + k, ?_, ?_, ?_⟩
  · rw [hit_searchOutside_nil a.matcher hready.le_length, hsearch]
  · rw [hlit] at hready ⊢
    rw [List.append_assoc] at ho ⊢
    refine hready.strip_slice hv (fun c hc => hlead c ?_) ho
    rw [hs.eq_append]
    exact List.mem_append_left _ hc
  · refine .behind (a := (front ++ v) ++ (Text.leadingBlanks literal ++ Text.strip literal) ++
        (Text.trailingBlanks literal).take k) (b := (Text.trailingBlanks literal).drop k) ?_ ?_ ?_
    · conv => lhs; rw [← hcut]
      simp only [List.append_assoc, List.take_append_drop]
    · exact fun c hc => htrail c (List.mem_of_mem_drop hc)
    · simp only [List.length_append, List.length_take]
      omega


end Ready

/-! ## One step -/

namespace Scan

variable {front v literal u : Text} {scan : Scan} {isLast : Bool} (settings : Settings)
  (label : Text)

/-- Everything up to the end of the text is taken behind the last slot, if nothing or a mere gap
follows it. -/
theorem step_last (hsync : scan.synced = true) (hready : Ready front (v ++ literal) scan.cursor)
    (hv : Text.strip v = v) (hb : Text.AllBlank literal) :
    ∃ stop, scan.step settings [] (front ++ (v ++ literal)) label (.ofLiteral literal) true =
        scan.take label stop stop [] ∧
      Text.strip (Text.slice (front ++ (v ++ literal)) scan.cursor stop) = v := by
  have hslice := Ready.strip_slice (w := []) (by simpa using hready) hv hb hready.le_length
  rw [List.append_nil] at hslice
  refine ⟨(front ++ (v ++ literal)).length, ?_, hslice⟩
  cases hl : Anchor.ofLiteral literal with
  | empty => simp only [step, hsync, if_true]
  | gap g => simp only [step, hsync, if_true]
  | text a =>
      exact absurd ((Text.strip_eq_nil_iff literal).mpr hb) (Anchor.ofLiteral_eq_text_iff.mp hl).1

theorem step_gap (hsync : scan.synced = true)
    (hready : Ready front (v ++ (literal ++ u)) scan.cursor) (hl : Legible false literal v)
    (hb : Text.AllBlank literal) :
    ∃ stop next events,
      scan.step settings [] (front ++ (v ++ (literal ++ u))) label (.ofLiteral literal)
        false = scan.take label stop next events ∧
      Text.strip (Text.slice (front ++ (v ++ (literal ++ u))) scan.cursor stop) = v ∧
      Ready (front ++ (v ++ literal)) u next := by
  have hne := hl.nonempty rfl
  obtain ⟨hv, hspaces⟩ := hl.gap rfl hb
  have hanchor : Anchor.ofLiteral literal = .gap (.ofBlanks literal) :=
    Anchor.ofLiteral_eq_gap_iff.mpr ⟨hne, hb, rfl⟩
  have hplain := Text.plainBlanks_of_allBlank hb hl.plain
  obtain ⟨n, hn, hsearch⟩ :=
    Gap.search_literal hplain hne hl.strip_eq hl.one_line hspaces front u
  have horigin := hready.contentStart_eq hl.strip_eq hv
  have hle : scan.cursor ≤ (front ++ (v ++ [])).length := by
    obtain ⟨a, b, hfront, -, ha⟩ := hready.exists_behind hl.strip_eq hv
    rw [ha, hfront, List.append_assoc]
    simp
  have hhit := hit_searchOutside_nil (Gap.ofBlanks literal).matcher
    (t := front ++ (v ++ (literal ++ u))) (o := front.length) (by simp)
  rw [hsearch] at hhit
  refine ⟨(front ++ v).length, (front ++ v).length + n,
    skips (searchOutside (Gap.ofBlanks literal).matcher [] (front ++ (v ++ (literal ++ u)))
      front.length), ?_, ?_, ?_⟩
  · simp only [step, hsync, hanchor, if_true, Bool.false_eq_true, if_false, takeToGap, horigin,
      hhit]
  · have := Ready.strip_slice (s := []) (w := literal ++ u) (by simpa using hready) hl.strip_eq
      (by simp [Text.AllBlank]) hle
    simpa using this
  · rw [← List.append_assoc]
    exact Ready.of_gap hb hn

theorem step_text (hsync : scan.synced = true)
    (hready : Ready front (v ++ (literal ++ u)) scan.cursor) (hl : Legible isLast literal v)
    (hb : ¬ Text.AllBlank literal) :
    ∃ stop next events,
      scan.step settings [] (front ++ (v ++ (literal ++ u))) label (.ofLiteral literal)
        isLast = scan.take label stop next events ∧
      Text.strip (Text.slice (front ++ (v ++ (literal ++ u))) scan.cursor stop) = v ∧
      Ready (front ++ (v ++ literal)) u next := by
  have hne : Text.strip literal ≠ [] := fun h => hb ((Text.strip_eq_nil_iff _).mp h)
  obtain ⟨a, ha⟩ : ∃ a, Anchor.ofLiteral literal = .text a :=
    ⟨_, Anchor.ofLiteral_eq_text_iff.mpr ⟨hne, rfl⟩⟩
  obtain ⟨stop, next, hhit, hvalue, hnext⟩ :=
    Ready.exists_hit ha hl.plain hready hl.strip_eq hl.fresh
  refine ⟨stop, next,
    skips (searchOutside a.matcher [] (front ++ (v ++ (literal ++ u))) scan.cursor), ?_, hvalue,
    hnext⟩
  simp only [step, hsync, ha, if_true, takeToText, hhit]

/-- A step gives its slot the value, if that can be told from the literal behind the slot. -/
theorem step_legible (hsync : scan.synced = true)
    (hready : Ready front (v ++ (literal ++ u)) scan.cursor) (hl : Legible isLast literal v)
    (hu : isLast = true → u = []) :
    ∃ stop next events,
      scan.step settings [] (front ++ (v ++ (literal ++ u))) label (.ofLiteral literal)
        isLast = scan.take label stop next events ∧
      Text.strip (Text.slice (front ++ (v ++ (literal ++ u))) scan.cursor stop) = v ∧
      (isLast = false → Ready (front ++ (v ++ literal)) u next) := by
  by_cases hb : Text.AllBlank literal
  · cases isLast with
    | true =>
        rw [hu rfl, List.append_nil] at hready ⊢
        obtain ⟨stop, hstep, hvalue⟩ := step_last settings label hsync hready hl.strip_eq hb
        exact ⟨stop, stop, [], hstep, hvalue, fun h => by simp at h⟩
    | false =>
        obtain ⟨stop, next, events, hstep, hvalue, hnext⟩ :=
          step_gap settings label hsync hready hl hb
        exact ⟨stop, next, events, hstep, hvalue, fun _ => hnext⟩
  · obtain ⟨stop, next, events, hstep, hvalue, hnext⟩ :=
      step_text settings label hsync hready hl hb
    exact ⟨stop, next, events, hstep, hvalue, fun _ => hnext⟩

theorem ready_opening {opening : Text} (hp : Text.PlainSpacing opening) (rest : Text) :
    (Scan.opening [] (opening ++ rest) (.ofLiteral opening)).1.synced = true ∧
      Ready opening rest (Scan.opening [] (opening ++ rest) (.ofLiteral opening)).1.cursor := by
  cases hl : Anchor.ofLiteral opening with
  | empty =>
      rw [Anchor.ofLiteral_eq_empty_iff.mp hl]
      exact ⟨rfl, .start _⟩
  | gap g =>
      exact ⟨rfl, .behind (a := []) rfl (Anchor.ofLiteral_eq_gap_iff.mp hl).2.1 rfl⟩
  | text a =>
      obtain ⟨stop, next, hhit, -, hnext⟩ :=
        Ready.exists_hit (v := []) hl hp (.start (opening ++ rest)) rfl (by simp)
      simp only [List.nil_append] at hhit hnext
      simp only [Scan.opening, hhit]
      exact ⟨trivial, hnext⟩

end Scan

/-! ## The whole scan -/

/-- The values of the first `n` slots can be told from the literals behind them. -/
def Readable : Nat → List (Slot × Text) → List Text → Prop
  | n + 1, (_, literal) :: parts, v :: values =>
      Legible parts.isEmpty literal v ∧ Readable n parts values
  | _, _, _ => True

theorem readable_of_forall {parts : List (Slot × Text)} {values : List Text} {n : Nat}
    (h : ∀ i slot literal v, i < n → parts[i]? = some (slot, literal) → values[i]? = some v →
      Legible (decide (i + 1 = parts.length)) literal v) : Readable n parts values := by
  induction parts generalizing values n with
  | nil => cases n <;> trivial
  | cons part rest ih =>
      obtain ⟨slot, literal⟩ := part
      cases n with
      | zero => trivial
      | succ n =>
          cases values with
          | nil => trivial
          | cons v values =>
              refine ⟨?_, ih fun i slot' literal' v' hi hpart hv => ?_⟩
              · have := h 0 slot literal v (by omega) rfl rfl
                rwa [show decide (0 + 1 = ((slot, literal) :: rest).length) = rest.isEmpty by
                  cases rest <;> simp] at this
              · have := h (i + 1) slot' literal' v' (by omega) hpart hv
                simpa using this

namespace Captures

variable (settings : Settings)

/-- A scan gives back the values of the slots up to the first one whose value cannot be told from
the literal behind it. -/
theorem value?_ofParts {parts : List (Slot × Text)} {values : List Text} {front : Text}
    {n index : Nat} {scan : Scan} (hsync : scan.synced = true)
    (hready : Ready front (fillParts parts values) scan.cursor) (h : Readable n parts values)
    {i : Nat} {v : Text} (hi : i < n) (hpart : i < parts.length) (hv : values[i]? = some v) :
    ∃ c, (ofParts settings [] (front ++ fillParts parts values) index scan parts).captures[i]? =
        some c ∧ c.value? = if v = [] then none else some v := by
  induction parts generalizing values front n index scan i with
  | nil => simp at hpart
  | cons part rest ih =>
      obtain ⟨slot, literal⟩ := part
      cases values with
      | nil => simp at hv
      | cons v₀ values =>
          cases n with
          | zero => omega
          | succ n =>
              obtain ⟨hl, hrest⟩ := h
              have hlast : rest.isEmpty = true → fillParts rest values = [] := fun hr => by
                rw [List.isEmpty_iff.mp hr]
                rfl
              obtain ⟨stop, next, events, hstep, hvalue, hnext⟩ :=
                Scan.step_legible settings slot.label hsync hready hl hlast
              simp only [ofParts, fillParts, hstep, Scan.take, Option.map_some]
              cases i with
              | zero =>
                  obtain rfl : v₀ = v := by simpa using hv
                  refine ⟨_, rfl, ?_⟩
                  simp only [Capture.value?, Capture.raw?, Option.map_some, Passage.between, hvalue]
              | succ i =>
                  have hmore : rest.isEmpty = false := by
                    cases rest with
                    | nil => simp at hpart
                    | cons _ _ => rfl
                  have ht : front ++ (v₀ ++ (literal ++ fillParts rest values)) =
                      (front ++ (v₀ ++ literal)) ++ fillParts rest values := by simp
                  rw [ht]
                  exact ih rfl (hnext hmore) hrest (by omega) (by simpa using hpart)
                    (by simpa using hv)

theorem value?_find {template : Template} {values : List Text} {n : Nat}
    (hfences : fences (template.fill values) = []) (hp : Text.PlainSpacing template.opening)
    (h : Readable n template.parts values) {i : Nat} {v : Text} (hi : i < n)
    (hpart : i < template.parts.length) (hv : values[i]? = some v) :
    ∃ c, (find settings template (template.fill values)).captures[i]? = some c ∧
      c.value? = if v = [] then none else some v := by
  obtain ⟨hsync, hready⟩ := Scan.ready_opening hp (fillParts template.parts values)
  unfold find
  rw [hfences]
  exact value?_ofParts settings hsync hready h hi hpart hv

end Captures

end InverseTemplate
