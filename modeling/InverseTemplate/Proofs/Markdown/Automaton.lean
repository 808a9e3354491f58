/-
# Fences line by line

A reading of the lines of a text, once and in their order, knows at each of them only whether a
fence is open, where it began and with which marker.  `Fence.Reads` is this automaton, with one
rule for each thing that a line can do.  It gives one list of fences (`Fence.Reads.unique`), and
that is what the fences of a text are, whether the text is cut into lines and these are sought
through or the patterns of an opening and a closing line are searched for in turn
(`fences_iff_reads`).

Both are followed by one induction over the lines, with a statement for each state.
-/
import InverseTemplate.Proofs.Markdown.Order
import InverseTemplate.Proofs.Markdown.Search
import InverseTemplate.Proofs.Text.Split

namespace InverseTemplate

namespace Fence

/-! ## The automaton -/

/-- What is known between two lines. -/
inductive State
  /-- No fence is open. -/
  | outside
  /-- A fence is open: where it began, and its marker. -/
  | inside (start : Nat) (marker : Marker)

/-- The fences that are read from lines on, in a state; `total` is where the text ends. -/
inductive Reads (total : Nat) : State → List Line → List Span → Prop
  | nothing : Reads total .outside [] []
  | unclosed {start : Nat} {marker : Marker} :
      Reads total (.inside start marker) [] [⟨start, total⟩]
  | opens {line : Line} {rest : List Line} {marker : Marker} {spans : List Span} :
      Opens marker line.content → Reads total (.inside line.offset marker) rest spans →
      Reads total .outside (line :: rest) spans
  | passes {line : Line} {rest : List Line} {spans : List Span} :
      (∀ marker, ¬ Opens marker line.content) → Reads total .outside rest spans →
      Reads total .outside (line :: rest) spans
  | closes {start : Nat} {marker : Marker} {line : Line} {rest : List Line} {spans : List Span} :
      Closes marker line.content → Reads total .outside rest spans →
      Reads total (.inside start marker) (line :: rest) (⟨start, line.stop⟩ :: spans)
  | stays {start : Nat} {marker : Marker} {line : Line} {rest : List Line} {spans : List Span} :
      ¬ Closes marker line.content → Reads total (.inside start marker) rest spans →
      Reads total (.inside start marker) (line :: rest) spans

/-! ## What lines do -/

variable {content : Text} {marker : Marker}

theorem unindented?_eq_some_iff {r : Text} :
    unindented? content = some r ↔
      ∃ blanks, content = blanks ++ r ∧ Text.Horizontal blanks ∧ blanks.length ≤ 3 ∧
        ∀ c, r.head? = some c → Text.isHorizontal c = false := by
  rw [unindented?]
  constructor
  · intro h
    split at h
    · next hle =>
        cases h
        exact ⟨_, List.takeWhile_append_dropWhile.symm, fun c hc => List.mem_takeWhile_imp hc, hle,
          fun c hc => Text.head?_dropWhile_eq_false hc⟩
    · cases h
  · rintro ⟨blanks, rfl, hblanks, hle, hr⟩
    obtain ⟨htake, hdrop⟩ := Text.takeWhile_append_of_stop hblanks hr
    rw [htake, if_pos hle, hdrop]

theorem opening?_eq_some_iff : opening? content = some marker ↔ Opens marker content := by
  rw [opening?]
  constructor
  · intro h
    split at h
    · next c r hr =>
        obtain ⟨blanks, rfl, hblanks, hle, -⟩ := unindented?_eq_some_iff.mp hr
        dsimp only at h
        split at h
        · next hmark =>
            cases h
            refine ⟨⟨hmark.1, hmark.2⟩, blanks, r.dropWhile (· = c), ?_, hblanks, hle, ?_⟩
            · rw [List.replicate_succ, List.cons_append, Text.replicate_append_dropWhile]
            · exact Text.head?_dropWhile_ne c r
        · cases h
    · cases h
  · rintro ⟨hproper, blanks, behind, rfl, hblanks, hle, hhead⟩
    have hrest : unindented? (blanks ++ (List.replicate marker.width marker.mark ++ behind)) =
        some (List.replicate marker.width marker.mark ++ behind) :=
      unindented?_eq_some_iff.mpr
        ⟨blanks, rfl, hblanks, hle, hproper.isHorizontal_head (Nat.le_refl _) behind⟩
    obtain ⟨mark, width⟩ := marker
    obtain ⟨more, rfl⟩ : ∃ more, width = more + 1 := Nat.exists_eq_succ_of_ne_zero hproper.width_ne
    rw [hrest, List.replicate_succ, List.cons_append]
    simp only [(takeWhile_run hhead).1, List.length_replicate]
    rw [if_pos ⟨hproper.mark, hproper.width⟩]

theorem closes_iff (hproper : marker.Proper) :
    closes marker content = true ↔ Closes marker content := by
  rw [closes]
  constructor
  · intro h
    split at h
    · next r hr =>
        obtain ⟨blanks, rfl, hblanks, hle, -⟩ := unindented?_eq_some_iff.mp hr
        obtain ⟨hwidth, hall⟩ := Bool.and_eq_true_iff.mp h
        refine ⟨blanks, _, r.dropWhile (· = marker.mark), ?_, hblanks, hle,
          of_decide_eq_true hwidth, List.all_eq_true.mp hall⟩
        rw [Text.replicate_append_dropWhile]
    · cases h
  · rintro ⟨blanks, width, behind, rfl, hblanks, hle, hwidth, hbehind⟩
    have hhead : behind.head? ≠ some marker.mark := by
      intro hhead
      have hblank := hbehind _ (List.mem_of_head? hhead)
      rw [hproper.isHorizontal] at hblank
      cases hblank
    have hrest : unindented? (blanks ++ (List.replicate width marker.mark ++ behind)) =
        some (List.replicate width marker.mark ++ behind) :=
      unindented?_eq_some_iff.mpr ⟨blanks, rfl, hblanks, hle,
        hproper.isHorizontal_head hwidth behind⟩
    rw [hrest]
    simp only [(takeWhile_run hhead).1, (takeWhile_run hhead).2, List.length_replicate,
      Bool.and_eq_true, decide_eq_true_eq]
    exact ⟨hwidth, List.all_eq_true.mpr hbehind⟩

theorem Opens.unique {marker' : Marker} (h : Opens marker content) (h' : Opens marker' content) :
    marker = marker' :=
  Option.some.inj ((opening?_eq_some_iff.mpr h).symm.trans (opening?_eq_some_iff.mpr h'))

/-- The automaton gives one list of fences. -/
theorem Reads.unique {total : Nat} {state : State} {lines : List Line} {spans spans' : List Span}
    (h : Reads total state lines spans) (h' : Reads total state lines spans') : spans = spans' := by
  induction h generalizing spans' with
  | nothing | unclosed =>
      cases h'
      rfl
  | opens hopens _ ih =>
      cases h' with
      | opens hopens' hrest =>
          rw [hopens.unique hopens'] at ih
          exact ih hrest
      | passes hnone _ => exact absurd hopens (hnone _)
  | passes hnone _ ih =>
      cases h' with
      | opens hopens _ => exact absurd hopens (hnone _)
      | passes _ hrest => exact ih hrest
  | closes hcloses _ ih =>
      cases h' with
      | closes _ hrest => rw [ih hrest]
      | stays hnot _ => exact absurd hcloses hnot
  | stays hnot _ ih =>
      cases h' with
      | closes hcloses _ => exact absurd hcloses hnot
      | stays _ hrest => exact ih hrest

/-! ## Seeking through the lines -/

/-- The fences of the lines behind an opening one. -/
def ofInside (total start : Nat) (marker : Marker) (lines : List Line) : List Span :=
  match seekClosing marker lines with
  | none => [⟨start, total⟩]
  | some (stop, rest) => ⟨start, stop⟩ :: ofLines total rest

theorem ofLines_eq (total : Nat) (lines : List Line) :
    ofLines total lines =
      match seekOpening lines with
      | none => []
      | some (start, marker, body) => ofInside total start marker body := by
  rw [ofLines]
  split
  · next hnone => rw [hnone]
  · next hsome =>
      split
      · next hnone =>
          rw [hsome]
          simp only [ofInside, hnone]
      · next hclosing =>
          dsimp only
          rw [hsome]
          simp only [ofInside, hclosing]

theorem ofLines_nil (total : Nat) : ofLines total [] = [] := ofLines_eq total []

theorem ofLines_cons (total : Nat) (line : Line) (rest : List Line) :
    ofLines total (line :: rest) =
      match opening? line.content with
      | none => ofLines total rest
      | some marker => ofInside total line.offset marker rest := by
  rw [ofLines_eq, seekOpening]
  cases opening? line.content with
  | none => exact (ofLines_eq total rest).symm
  | some marker => rfl

theorem ofInside_cons (total start : Nat) (marker : Marker) (line : Line) (rest : List Line) :
    ofInside total start marker (line :: rest) =
      if closes marker line.content then ⟨start, line.stop⟩ :: ofLines total rest
      else ofInside total start marker rest := by
  rw [ofInside, seekClosing]
  by_cases hcloses : closes marker line.content = true
  · rw [if_pos hcloses, if_pos hcloses]
  · rw [if_neg hcloses, if_neg hcloses]
    rfl

theorem reads_ofLines (total : Nat) (lines : List Line) :
    Reads total .outside lines (ofLines total lines) ∧
      ∀ start marker, marker.Proper →
        Reads total (.inside start marker) lines (ofInside total start marker lines) := by
  induction lines with
  | nil =>
      rw [ofLines_nil]
      exact ⟨.nothing, fun start marker _ => .unclosed⟩
  | cons line rest ih =>
      obtain ⟨houtside, hinside⟩ := ih
      constructor
      · rw [ofLines_cons]
        cases hopening : opening? line.content with
        | none =>
            refine .passes ?_ houtside
            intro marker hopens
            rw [opening?_eq_some_iff.mpr hopens] at hopening
            cases hopening
        | some marker =>
            have hopens := opening?_eq_some_iff.mp hopening
            exact .opens hopens (hinside line.offset marker hopens.1)
      · intro start marker hproper
        rw [ofInside_cons]
        by_cases hcloses : closes marker line.content = true
        · rw [if_pos hcloses]
          exact .closes ((closes_iff hproper).mp hcloses) houtside
        · rw [if_neg hcloses]
          exact .stays (fun h => hcloses ((closes_iff hproper).mpr h))
            (hinside start marker hproper)

/-! ## Searching for the patterns -/

theorem Closes.ne_nil (h : Closes marker content) (hproper : marker.Proper) : content ≠ [] := by
  obtain ⟨blanks, width, behind, rfl, -, -, hwidth, -⟩ := h
  intro hnil
  have hlen := congrArg List.length hnil
  have hpos := hproper.width
  simp only [List.length_append, List.length_replicate, List.length_nil] at hlen
  omega

theorem placed_splitOn_append {behind : Text} (hline : '\n' ∉ content) (offset : Nat) :
    Line.placed offset (List.splitOn '\n' (content ++ '\n' :: behind)) =
      ⟨offset, content⟩ :: Line.placed (offset + content.length + 1)
        (List.splitOn '\n' behind) := by
  rw [List.splitOn_append_cons_self, List.splitOn_eq_singleton hline]
  rfl

theorem LineAt.reads {t behind : Text} {offset : Nat} {lines : List Line}
    (h : LineAt t offset content behind)
    (houtside : Reads t.length .outside lines
      (searchNext t (offset + content.length + 1) behind))
    (hinside : ∀ start marker, marker.Proper → Reads t.length (.inside start marker) lines
      (searchNextBehind t start marker (offset + content.length + 1) behind)) :
    Reads t.length .outside (⟨offset, content⟩ :: lines) (searchFrom t offset) ∧
      ∀ start marker, marker.Proper →
        Reads t.length (.inside start marker) (⟨offset, content⟩ :: lines)
          (searchBehind t start marker offset) := by
  constructor
  · cases hmatch : openingMatch? (content ++ behind) with
    | none =>
        rw [h.searchFrom_of_none hmatch]
        refine .passes ?_ houtside
        intro marker hopens
        obtain ⟨n, hn⟩ := exists_openingMatch? h.ends hopens
        rw [hmatch] at hn
        cases hn
    | some found =>
        obtain ⟨marker, n⟩ := found
        have hopens := (opens_of_openingMatch? h.ends hmatch).1
        rw [h.searchFrom_of_some hmatch]
        exact .opens hopens (hinside offset marker hopens.1)
  · intro start marker hproper
    have hmatch := fun n => closingMatch?_line_iff (n := n) hproper h.line h.ends
    cases hclosing : closingMatch? marker (content ++ behind) with
    | none =>
        rw [h.searchBehind_of_none hclosing]
        refine .stays ?_ (hinside start marker hproper)
        intro hcloses
        rw [(hmatch content.length).mpr ⟨hcloses, rfl⟩] at hclosing
        cases hclosing
    | some n =>
        obtain ⟨hcloses, rfl⟩ := (hmatch n).mp hclosing
        rw [h.searchBehind_of_some (hcloses.ne_nil hproper) hclosing]
        exact .closes hcloses houtside

/-- The fences that are found are those that are read, from the beginning of any line on. -/
theorem reads_search (t rest : Text) : ∀ offset, beginsLine t offset = true → t.drop offset = rest →
    Reads t.length .outside (Line.placed offset (List.splitOn '\n' rest)) (searchFrom t offset) ∧
      ∀ start marker, marker.Proper →
        Reads t.length (.inside start marker) (Line.placed offset (List.splitOn '\n' rest))
          (searchBehind t start marker offset) := by
  induction rest using Text.induction_splitOn '\n' with
  | last content hline =>
      intro offset hbegins hdrop
      have h : LineAt t offset content [] :=
        ⟨hbegins, by rw [hdrop, List.append_nil], hline, .inl rfl⟩
      rw [List.splitOn_eq_singleton hline]
      exact h.reads .nothing fun start marker _ => .unclosed
  | more content rest hline ih =>
      intro offset hbegins hdrop
      have h : LineAt t offset content ('\n' :: rest) := ⟨hbegins, hdrop, hline, .inr rfl⟩
      obtain ⟨hbegins', hdrop'⟩ := h.next
      obtain ⟨houtside, hinside⟩ := ih _ hbegins' hdrop'
      rw [placed_splitOn_append hline]
      exact h.reads houtside hinside

end Fence

/-- The fences of a text are those that are found by searching for the two patterns, and the one
list that is read from its lines, once and in their order; they are not empty, and each begins
behind the end of those in front of it. -/
theorem fences_iff_reads (t : Text) :
    Fence.searchFrom t 0 = fences t ∧
      (∀ spans, Fence.Reads t.length .outside t.lines spans ↔ spans = fences t) ∧
      (∀ s ∈ fences t, s.start < s.stop) ∧
      (fences t).Pairwise fun a b => a.start < b.start ∧ a.stop ≤ b.start := by
  have hlines : Fence.Reads t.length .outside t.lines (fences t) := (Fence.reads_ofLines _ _).1
  have hsearch : Fence.Reads t.length .outside t.lines (Fence.searchFrom t 0) :=
    (Fence.reads_search t t 0 rfl rfl).1
  obtain ⟨hpos, hbehind⟩ := ordered_fences t
  refine ⟨hsearch.unique hlines, ?_, hpos, ?_⟩
  · intro spans
    constructor
    · exact fun h => h.unique hlines
    · rintro rfl
      exact hlines
  · refine hbehind.imp_of_mem ?_
    intro a b ha _ hle
    exact ⟨Nat.lt_of_lt_of_le (hpos a ha) hle, hle⟩

end InverseTemplate
