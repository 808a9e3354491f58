/-
# Fences and line ends

Only a line feed ends a line, so with a carriage return in front of it every line but the last
ends with a carriage return.  Such a line opens a fence if it does without the carriage return,
for anything may stand behind the marks; but it does not close one, for nothing but horizontal
blanks may stand there.  So in a text with a carriage return in front of each line feed, a fence
is closed by the last line or not at all, and every line from the first fence on lies in a fence
(`fenced_withReturns_iff`).  The lines in fences are those of the text without carriage returns
only if there, too, no line behind a fence lies outside of all fences.

Which lines lie in a fence is read off their contents by `Fence.covered`, one answer a line.  That
this is what the spans say is one induction over the lines, and what the carriage returns change
is another.
-/
import InverseTemplate.Proofs.Markdown.Automaton

namespace InverseTemplate

/-! ## Texts with carriage returns -/

/-- The text with a carriage return in front of every line feed. -/
def Text.withReturns (t : Text) : Text := t.flatMap fun c => if c = '\n' then ['\r', '\n'] else [c]

/-- Lines with a carriage return at the end of each but the last. -/
def Text.returned : List Text → List Text
  | [] => []
  | content :: rest => (if rest = [] then content else content ++ ['\r']) :: returned rest

namespace Text

theorem withReturns_of_not_mem {t : Text} (h : '\n' ∉ t) : t.withReturns = t := by
  induction t with
  | nil => rfl
  | cons c r ih =>
      rw [List.mem_cons, not_or] at h
      have ih := ih h.2
      simp only [withReturns] at ih ⊢
      rw [List.flatMap_cons, if_neg (Ne.symm h.1), ih]
      rfl

theorem withReturns_append (a b : Text) : (a ++ b).withReturns = a.withReturns ++ b.withReturns :=
  List.flatMap_append

theorem splitOn_withReturns (t : Text) :
    List.splitOn '\n' t.withReturns = returned (List.splitOn '\n' t) := by
  induction t using induction_splitOn '\n' with
  | last content hline =>
      rw [withReturns_of_not_mem hline, List.splitOn_eq_singleton hline]
      rfl
  | more content rest hline ih =>
      have hreturns : (content ++ '\n' :: rest).withReturns =
          (content ++ ['\r']) ++ '\n' :: rest.withReturns := by
        rw [withReturns_append, withReturns_of_not_mem hline, List.append_assoc]
        rfl
      have hline' : '\n' ∉ content ++ ['\r'] := by simpa using hline
      rw [hreturns, List.splitOn_append_cons_self_of_not_mem hline', ih,
        List.splitOn_append_cons_self_of_not_mem hline, returned,
        if_neg (List.splitOn_ne_nil '\n' rest)]

theorem length_returned (contents : List Text) : (returned contents).length = contents.length := by
  induction contents with
  | nil => rfl
  | cons content rest ih => simp [returned, ih]

end Text

/-! ## Lines in fences -/

/-- Does one of the spans hold all of the line? -/
def Line.isIn (spans : List Span) (line : Line) : Bool :=
  spans.any fun block => block.start ≤ line.offset && line.stop ≤ block.stop

/-- The line at an index lies in a fence of the text. -/
def Fenced (t : Text) (k : Nat) : Prop :=
  ∃ line, t.lines[k]? = some line ∧ line.isIn (fences t) = true

theorem Line.isIn_iff {spans : List Span} {line : Line} :
    line.isIn spans = true ↔
      ∃ block ∈ spans, block.start ≤ line.offset ∧ line.stop ≤ block.stop := by
  simp only [isIn, List.any_eq_true, Bool.and_eq_true, decide_eq_true_eq]

namespace Fence

/-- For each of the lines with these contents, whether it lies in a fence; the marker is that of the
fence that is open in front of them, if one is. -/
def covered : Option Marker → List Text → List Bool
  | _, [] => []
  | none, content :: rest =>
      match opening? content with
      | none => false :: covered none rest
      | some marker => true :: covered (some marker) rest
  | some marker, content :: rest =>
      true :: covered (if closes marker content then none else some marker) rest

variable {total start : Nat} {marker : Marker} {lines rest : List Line} {line : Line}

theorem isIn_ofInside (hstart : start ≤ line.offset) (htotal : line.stop ≤ total)
    (hbehind : ∀ r ∈ rest, line.stop < r.offset) :
    line.isIn (ofInside total start marker rest) = true := by
  rw [Line.isIn_iff, ofInside]
  cases hclosing : seekClosing marker rest with
  | none => exact ⟨⟨start, total⟩, List.mem_singleton_self _, hstart, htotal⟩
  | some found =>
      obtain ⟨stop, more⟩ := found
      obtain ⟨last, hsuffix, rfl⟩ := of_seekClosing hclosing
      have hlast := hbehind last (hsuffix.subset (List.mem_cons_self ..))
      refine ⟨⟨start, last.stop⟩, List.mem_cons_self .., hstart, ?_⟩
      exact Nat.le_trans (Nat.le_of_lt hlast) last.offset_le_stop

theorem isIn_ofLines (hbehind : ∀ r ∈ rest, line.stop < r.offset) :
    line.isIn (ofLines total rest) = false := by
  rw [← Bool.not_eq_true, Line.isIn_iff]
  rintro ⟨block, hblock, hstart, -⟩
  obtain ⟨⟨opener, hopener, -, hoffset, -⟩, -⟩ := of_mem_ofLines hblock
  have hlater := hbehind opener hopener
  have hle := line.offset_le_stop
  omega

/-- The lines that the fences hold are those that are covered, be a fence open in front of them or
none. -/
theorem map_isIn (hlines : lines.Pairwise fun a b => a.stop < b.offset)
    (htotal : ∀ line ∈ lines, line.stop ≤ total) :
    lines.map (Line.isIn (ofLines total lines)) = covered none (lines.map Line.content) ∧
      ∀ start marker, (∀ line ∈ lines, start ≤ line.offset) →
        lines.map (Line.isIn (ofInside total start marker lines)) =
          covered (some marker) (lines.map Line.content) := by
  induction lines with
  | nil => exact ⟨rfl, fun _ _ _ => rfl⟩
  | cons line rest ih =>
      obtain ⟨hbehind, hrest⟩ := List.pairwise_cons.mp hlines
      obtain ⟨hstop, hstops⟩ := List.forall_mem_cons.mp htotal
      obtain ⟨houtside, hinside⟩ := ih hrest hstops
      simp only [List.map_cons]
      constructor
      · rw [ofLines_cons, covered]
        cases opening? line.content with
        | none =>
            simp only
            rw [isIn_ofLines hbehind, houtside]
        | some marker =>
            have hoffset : ∀ r ∈ rest, line.offset ≤ r.offset := fun r hr =>
              Nat.le_trans line.offset_le_stop (Nat.le_of_lt (hbehind r hr))
            simp only
            rw [isIn_ofInside (Nat.le_refl _) hstop hbehind, hinside _ _ hoffset]
      · intro start marker hstart
        obtain ⟨hfirst, hstart⟩ := List.forall_mem_cons.mp hstart
        rw [ofInside_cons, covered]
        by_cases hcloses : closes marker line.content = true
        · rw [if_pos hcloses, if_pos hcloses, ← houtside]
          -- the fence that is closed here holds this line and no later one
          have hhere : line.isIn (⟨start, line.stop⟩ :: ofLines total rest) = true := by
            simp [Line.isIn, hfirst]
          have hlater : ∀ r ∈ rest, r.isIn (⟨start, line.stop⟩ :: ofLines total rest) =
              r.isIn (ofLines total rest) := by
            intro r hr
            have hlt := Nat.lt_of_lt_of_le (hbehind r hr) r.offset_le_stop
            simp [Line.isIn, Nat.not_le_of_lt hlt]
          rw [hhere, List.map_congr_left hlater]
        · rw [if_neg hcloses, if_neg hcloses, isIn_ofInside hfirst hstop hbehind,
            hinside start marker hstart]

end Fence

theorem fenced_iff_covered {t : Text} {k : Nat} :
    Fenced t k ↔ (Fence.covered none (List.splitOn '\n' t))[k]? = some true := by
  obtain ⟨hcovered, -⟩ := Fence.map_isIn (Line.pairwise_placed 0 (List.splitOn '\n' t))
    fun line hline => (Text.lines_spec hline).2
  rw [Line.map_content_placed] at hcovered
  rw [← hcovered, List.getElem?_map, Option.map_eq_some_iff]
  rfl

instance (t : Text) (k : Nat) : Decidable (Fenced t k) := decidable_of_iff _ fenced_iff_covered.symm

/-! ## What carriage returns change -/

namespace Fence

variable {content blanks : Text} {contents : List Text} {marker : Marker} {width k : Nat}

theorem Marker.Proper.ne_return (hproper : marker.Proper) : marker.mark ≠ '\r' := by
  rcases hproper.mark with hmark | hmark <;> rw [hmark] <;> decide

theorem Marker.Proper.return_not_mem (hproper : marker.Proper) (hblanks : Text.Horizontal blanks) :
    '\r' ∉ blanks ++ List.replicate width marker.mark := by
  intro hmem
  rcases List.mem_append.mp hmem with hblank | hmark
  · exact absurd (hblanks _ hblank) (by decide)
  · exact hproper.ne_return (List.mem_replicate.mp hmark).2.symm

theorem opens_append_return : Opens marker (content ++ ['\r']) ↔ Opens marker content := by
  constructor
  · rintro ⟨hproper, blanks, behind, heq, hblanks, hle, hhead⟩
    rw [← List.append_assoc] at heq
    rcases List.append_eq_append_iff.mp heq with ⟨rest, hrest, hreturn⟩ | ⟨front, rfl, rfl⟩
    · rcases List.singleton_eq_append_iff.mp hreturn with ⟨rfl, rfl⟩ | ⟨rfl, rfl⟩
      · rw [List.append_nil] at hrest
        exact ⟨hproper, blanks, [], by simp [← hrest], hblanks, hle, by simp⟩
      · have hmem : '\r' ∈ blanks ++ List.replicate marker.width marker.mark := by simp [hrest]
        exact absurd hmem (hproper.return_not_mem hblanks)
    · refine ⟨hproper, blanks, front, List.append_assoc .., hblanks, hle, ?_⟩
      cases front with
      | nil => simp
      | cons c r => exact hhead
  · rintro ⟨hproper, blanks, behind, rfl, hblanks, hle, hhead⟩
    refine ⟨hproper, blanks, behind ++ ['\r'], by simp, hblanks, hle, ?_⟩
    cases behind with
    | nil => exact fun h => hproper.ne_return (Option.some.inj h).symm
    | cons c r => exact hhead

theorem not_closes_append_return (hproper : marker.Proper) :
    ¬ Closes marker (content ++ ['\r']) := by
  rintro ⟨blanks, width, behind, heq, hblanks, -, -, hbehind⟩
  have hmem : '\r' ∈ (blanks ++ List.replicate width marker.mark) ++ behind := by
    rw [List.append_assoc, ← heq]
    simp
  rcases List.mem_append.mp hmem with hfront | hback
  · exact hproper.return_not_mem hblanks hfront
  · exact absurd (hbehind _ hback) (by decide)

theorem opening?_append_return : opening? (content ++ ['\r']) = opening? content := by
  refine Option.ext fun marker => ?_
  rw [opening?_eq_some_iff, opening?_eq_some_iff, opens_append_return]

theorem covered_nil (state : Option Marker) : covered state [] = [] := by
  cases state <;> rfl

theorem covered_returned_inside (hproper : marker.Proper) (contents : List Text) :
    covered (some marker) (Text.returned contents) = List.replicate contents.length true := by
  induction contents with
  | nil => rfl
  | cons content rest ih =>
      rw [Text.returned, covered, List.length_cons, List.replicate_succ]
      by_cases hrest : rest = []
      · rw [hrest, Text.returned, covered_nil]
        rfl
      · have hopen : ¬ closes marker (content ++ ['\r']) = true :=
          fun h => not_closes_append_return hproper ((closes_iff hproper).mp h)
        rw [if_neg hrest, if_neg hopen, ih]

/-- Of lines with carriage returns those are covered that are covered without, and all that
follow. -/
theorem covered_returned :
    (covered none (Text.returned contents))[k]? = some true ↔
      k < contents.length ∧ ∃ j, j ≤ k ∧ (covered none contents)[j]? = some true := by
  induction contents generalizing k with
  | nil => simp [Text.returned, covered]
  | cons content rest ih =>
      have hopening : opening? (if rest = [] then content else content ++ ['\r']) =
          opening? content := by
        split
        · rfl
        · exact opening?_append_return
      rw [Text.returned, covered, covered, hopening]
      cases hmarker : opening? content with
      | some marker =>
          have hproper := (opening?_eq_some_iff.mp hmarker).1
          simp only
          rw [covered_returned_inside hproper, ← List.replicate_succ, List.getElem?_replicate]
          constructor
          · intro h
            exact ⟨by simpa using h, 0, Nat.zero_le k, rfl⟩
          · rintro ⟨hlt, -⟩
            simpa using hlt
      | none =>
          cases k with
          | zero => simp
          | succ k =>
              simp only [List.getElem?_cons_succ, ih, List.length_cons, Nat.succ_lt_succ_iff]
              refine and_congr_right fun _ => ?_
              constructor
              · rintro ⟨j, hle, hj⟩
                exact ⟨j + 1, Nat.succ_le_succ hle, hj⟩
              · rintro ⟨j, hle, hj⟩
                cases j with
                | zero => simp at hj
                | succ j => exact ⟨j, Nat.le_of_succ_le_succ hle, hj⟩

end Fence

/-- With a carriage return in front of every line feed a text has as many lines as without, and a
line lies in a fence exactly if, without, it does or one in front of it does.  So the same lines
lie in fences exactly if no line behind a fence lies outside of all fences. -/
theorem fenced_withReturns_iff (t : Text) :
    t.withReturns.lines.length = t.lines.length ∧
    (∀ k, Fenced t.withReturns k ↔ k < t.lines.length ∧ ∃ j, j ≤ k ∧ Fenced t j) ∧
    ((∀ k, Fenced t.withReturns k ↔ Fenced t k) ↔
      ∀ j k, Fenced t j → j ≤ k → k < t.lines.length → Fenced t k) := by
  have hlength : ∀ t : Text, t.lines.length = (List.splitOn '\n' t).length := by
    intro t
    have hcontents := congrArg List.length (Line.map_content_placed 0 (List.splitOn '\n' t))
    rwa [List.length_map] at hcontents
  have hfenced : ∀ k, Fenced t.withReturns k ↔ k < t.lines.length ∧ ∃ j, j ≤ k ∧ Fenced t j := by
    intro k
    simp only [fenced_iff_covered, Text.splitOn_withReturns, Fence.covered_returned, hlength]
  refine ⟨by rw [hlength, hlength, Text.splitOn_withReturns, Text.length_returned], hfenced, ?_⟩
  constructor
  · intro hsame j k hj hle hlt
    exact (hsame k).mp ((hfenced k).mpr ⟨hlt, j, hle, hj⟩)
  · intro hupward k
    rw [hfenced]
    constructor
    · rintro ⟨hlt, j, hle, hj⟩
      exact hupward j k hj hle hlt
    · rintro ⟨line, hline, hin⟩
      exact ⟨(List.getElem?_eq_some_iff.mp hline).1, k, Nat.le_refl k, line, hline, hin⟩

/-- A fence that is closed on the second line, and with carriage returns is not closed. -/
theorem fenced_withReturns_closed :
    let t := text "\x60\x60\x60\n\x60\x60\x60\nx"
    '\r' ∉ t ∧ ¬ Fenced t 2 ∧ Fenced t.withReturns 2 := by
  intro t
  exact ⟨by decide, by decide, by decide⟩

end InverseTemplate
