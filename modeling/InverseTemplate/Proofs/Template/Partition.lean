/-
# A template is a partition of its text

Between them the literals and the sources of the slots hold every character of a template's text
exactly once and in its order, but for the comments, which leave nothing behind
(`Template.exists_comments_ofText`).  What is malformed is no exception, because it becomes literal.

The reading cuts the text into pieces.  The spans that the pieces take up follow from the lengths of
their sources alone (`placed`), so that they lie one behind the other holds by construction.  What
has to be shown is that a piece is what stands in its span (`Piece.LiesAt`), and that is a fact
about one place of the text at a time.
-/
import InverseTemplate.Proofs.Template.Braces
import InverseTemplate.Proofs.Template.Extent
import InverseTemplate.Template.Split

namespace InverseTemplate

/-! ## Texts without some of their spans -/

/-- The characters of a text whose offsets lie in none of the spans, when the text begins at the
given offset. -/
def Text.outsideFrom (spans : List Span) (offset : Nat) (t : Text) : Text :=
  ((t.zipIdx offset).filter fun entry => !spans.any (·.holds entry.2)).map Prod.fst

/-- The text without the characters in the spans. -/
def Text.outside (spans : List Span) (t : Text) : Text := outsideFrom spans 0 t

namespace Text

variable {spans : List Span}

theorem outsideFrom_append (offset : Nat) (a b : Text) :
    outsideFrom spans offset (a ++ b) =
      outsideFrom spans offset a ++ outsideFrom spans (offset + a.length) b := by
  unfold outsideFrom
  rw [List.zipIdx_append, List.filter_append, List.map_append]

theorem outsideFrom_eq_self {offset : Nat} {t : Text}
    (h : ∀ i, offset ≤ i → i < offset + t.length → spans.any (·.holds i) = false) :
    outsideFrom spans offset t = t := by
  unfold outsideFrom
  rw [List.filter_eq_self.mpr, List.zipIdx_map_fst]
  rintro ⟨c, i⟩ hi
  have hrange := List.mem_zipIdx hi
  simp [h i hrange.1 (by omega)]

theorem outsideFrom_eq_nil {offset : Nat} {t : Text}
    (h : ∀ i, offset ≤ i → i < offset + t.length → spans.any (·.holds i) = true) :
    outsideFrom spans offset t = [] := by
  unfold outsideFrom
  rw [List.filter_eq_nil_iff.mpr, List.map_nil]
  rintro ⟨c, i⟩ hi
  have hrange := List.mem_zipIdx hi
  simp [h i hrange.1 (by omega)]

end Text

/-! ## Pieces in their places -/

/-- The span is a comment: a group of braces whose content, once it is trimmed, begins with a slash
and a star and ends with a star and a slash. -/
def CommentAt (t : Text) (s : Span) : Prop :=
  s.stop ≤ t.length ∧ ∃ inner, t.slice s.start s.stop = '\x7b' :: (inner ++ ['\x7d']) ∧
    Balanced inner ∧ ['/', '*'] <+: Text.strip inner ∧ ['*', '/'] <:+ Text.strip inner

namespace Piece

/-- The slot that a piece is. -/
def slot? : Piece → Option Slot
  | .slot s => some s
  | _ => none

theorem eq_of_slot? {piece : Piece} {s : Slot} (h : piece.slot? = some s) : piece = .slot s := by
  cases piece with
  | slot s' => exact congrArg Piece.slot (Option.some.inj h)
  | literal source => simp [slot?] at h
  | comment source => simp [slot?] at h

/-- Is the piece a comment? -/
def isComment : Piece → Bool
  | .comment _ => true
  | _ => false

/-- The piece is what stands in a span of the text. -/
structure LiesAt (t : Text) (s : Span) (piece : Piece) : Prop where
  start_lt_stop : s.start < s.stop
  stop_le_length : s.stop ≤ t.length
  source_eq : piece.source = t.slice s.start s.stop
  comment : piece.isComment = true → CommentAt t s
  slot : ∀ slot ∈ piece.slot?, slot.start = s.start ∧ slot.stop = s.stop

theorem commentAt_ofBrace {t : Text} {c : Cursor} (hc : c.IsIn t) {inner : Text}
    (hrest : c.rest = '\x7b' :: inner) (h : (ofBrace c inner).isComment = true) :
    CommentAt t ⟨c.offset, c.offset + (ofBrace c inner).source.length⟩ := by
  unfold ofBrace at h ⊢
  cases hn : braceLength? 0 inner with
  | none => simp [hn, isComment] at h
  | some n =>
      simp only [hn] at h ⊢
      split at h
      · next hcomment =>
          rw [if_pos hcomment]
          obtain ⟨content, behind, hbalanced, rfl, rfl⟩ := exists_balanced hn
          rw [List.take_left] at hcomment
          let group : Text := '\x7b' :: (content ++ ['\x7d'])
          have hcut : c.rest = group ++ behind := by simp [group, hrest]
          have hgroup : c.rest.take (content.length + 2) = group := by
            rw [hcut, List.take_left' (by simp [group])]
          have hlength : group.length = content.length + 2 := by simp [group]
          have hslice : t.slice c.offset (c.offset + group.length) = group := by
            rw [Text.slice, ← hc, Nat.add_sub_cancel_left, hcut, List.take_left]
          have hlen : group.length ≤ t.length - c.offset := by
            rw [← List.length_drop, ← hc, hcut, List.length_append]
            exact Nat.le_add_right _ _
          rw [source, hgroup]
          simp only [Expression.isComment, Bool.and_eq_true, List.isPrefixOf_iff_prefix,
            List.isSuffixOf_iff_suffix] at hcomment
          refine ⟨?_, content, hslice, hbalanced, hcomment.1.2, hcomment.2⟩
          show c.offset + group.length ≤ t.length
          omega
      · split at h
        · simp [isComment] at h
        · simp [isComment] at h

theorem slot_ofBrace {c : Cursor} {inner : Text} (hrest : c.rest = '\x7b' :: inner) {slot : Slot}
    (h : (ofBrace c inner).slot? = some slot) :
    slot.start = c.offset ∧ slot.stop = c.offset + slot.raw.length := by
  unfold ofBrace at h
  cases hn : braceLength? 0 inner with
  | none => simp [hn, slot?] at h
  | some n =>
      simp only [hn] at h
      split at h
      · simp [slot?] at h
      · split at h
        · simp [slot?] at h
        · cases h
          have := lt_length_of_braceLength? hn
          refine ⟨rfl, ?_⟩
          show c.offset + n + 2 = c.offset + (c.rest.take (n + 2)).length
          rw [List.length_take, hrest, List.length_cons]
          omega

theorem slot_ofAngle {c : Cursor} {slot : Slot} (h : (ofAngle c).slot? = some slot) :
    slot.start = c.offset ∧ slot.stop = c.offset + slot.raw.length := by
  unfold ofAngle at h
  split at h
  · next s hs =>
      cases h
      obtain ⟨hstart, hlt, hraw⟩ := offset_lt_stop_of_componentAt? hs
      have hle := stop_le_limit_of_componentAt? hs
      unfold Cursor.limit at hle
      refine ⟨hstart.symm, ?_⟩
      rw [hraw, List.length_take]
      omega
  · simp [slot?] at h

theorem ofCursor_cases (regions : List Span) (c : Cursor) (first : Char) (more : Text) :
    (∃ source, ofCursor regions c first more = .literal source) ∨
      (first = '\x7b' ∧ ofCursor regions c first more = ofBrace c more) ∨
      ofCursor regions c first more = ofAngle c := by
  unfold ofCursor
  split
  · split
    · exact .inl ⟨_, rfl⟩
    · split
      · next hbrace => exact .inr (.inl ⟨hbrace, rfl⟩)
      · exact .inr (.inr rfl)
  · exact .inl ⟨_, rfl⟩

theorem isComment_ofAngle (c : Cursor) : (ofAngle c).isComment = false := by
  unfold ofAngle
  split <;> rfl

/-- The piece that begins at a place is what stands there. -/
theorem liesAt_ofCursor (regions : List Span) {t : Text} {c : Cursor} (hc : c.IsIn t) {first : Char}
    {more : Text} (hrest : c.rest = first :: more) :
    LiesAt t ⟨c.offset, c.offset + (ofCursor regions c first more).source.length⟩
      (ofCursor regions c first more) := by
  obtain ⟨n, hn, hsource⟩ := source_ofCursor regions hrest
  have hlength : (ofCursor regions c first more).source.length = min n c.rest.length := by
    rw [hsource, List.length_take]
  have hpos : 0 < c.rest.length := by rw [hrest]; simp
  have hlimit : c.rest.length = t.length - c.offset := by rw [hc, List.length_drop]
  refine ⟨?_, ?_, ?_, ?_, ?_⟩
  · show c.offset < c.offset + (ofCursor regions c first more).source.length
    omega
  · show c.offset + (ofCursor regions c first more).source.length ≤ t.length
    omega
  · rw [Text.slice, ← hc, Nat.add_sub_cancel_left, hlength, hsource, ← List.take_eq_take_min]
  · intro hcomment
    rcases ofCursor_cases regions c first more with ⟨source, h⟩ | ⟨rfl, h⟩ | h
    · simp [h, isComment] at hcomment
    · rw [h] at hcomment ⊢
      exact commentAt_ofBrace hc hrest hcomment
    · simp [h, isComment_ofAngle] at hcomment
  · intro slot hslot
    have hraw : (ofCursor regions c first more).source = slot.raw := by
      rw [eq_of_slot? hslot, source]
    rw [hraw]
    rcases ofCursor_cases regions c first more with ⟨source, h⟩ | ⟨rfl, h⟩ | h
    · simp [h, slot?] at hslot
    · rw [h] at hslot
      exact slot_ofBrace hrest hslot
    · rw [h] at hslot
      exact slot_ofAngle hslot

end Piece

/-! ## Pieces one behind the other -/

/-- The pieces with the spans that they take up, when the first of them begins at the offset. -/
def placed (offset : Nat) : List Piece → List (Span × Piece)
  | [] => []
  | piece :: rest =>
      let stop := offset + piece.source.length
      (⟨offset, stop⟩, piece) :: placed stop rest

theorem map_snd_placed (offset : Nat) (pieces : List Piece) :
    (placed offset pieces).map Prod.snd = pieces := by
  induction pieces generalizing offset with
  | nil => rfl
  | cons piece rest ih => rw [placed, List.map_cons, ih]

theorem le_start_of_mem_placed {offset : Nat} {pieces : List Piece} {entry : Span × Piece}
    (h : entry ∈ placed offset pieces) : offset ≤ entry.1.start := by
  induction pieces generalizing offset with
  | nil => simp [placed] at h
  | cons piece rest ih =>
      rcases List.mem_cons.mp h with rfl | hmem
      · exact Nat.le_refl _
      · exact Nat.le_trans (Nat.le_add_right _ _) (ih hmem)

theorem pairwise_placed (offset : Nat) (pieces : List Piece) :
    (placed offset pieces).Pairwise fun a b => a.1.stop ≤ b.1.start := by
  induction pieces generalizing offset with
  | nil => exact .nil
  | cons piece rest ih =>
      exact List.pairwise_cons.mpr ⟨fun entry hentry => le_start_of_mem_placed hentry, ih _⟩

theorem liesAt_of_mem_placed {regions : List Span} {t : Text} {c : Cursor} (hc : c.IsIn t)
    {entry : Span × Piece} (h : entry ∈ placed c.offset (piecesFrom regions c)) :
    entry.2.LiesAt t entry.1 := by
  fun_induction piecesFrom regions c with
  | case1 => simp [placed] at h
  | case2 c first more hrest piece ih =>
      have hlies : piece.LiesAt t ⟨c.offset, c.offset + piece.source.length⟩ :=
        Piece.liesAt_ofCursor regions hc hrest
      have hpos : 0 < piece.source.length := by
        have : c.offset < c.offset + piece.source.length := hlies.start_lt_stop
        omega
      rcases List.mem_cons.mp h with rfl | hmem
      · exact hlies
      · rw [Nat.max_eq_left hpos] at ih hmem
        exact ih (hc.advance _) hmem

/-- The spans of the comments. -/
def commentSpans (entries : List (Span × Piece)) : List Span :=
  (entries.filter fun entry => entry.2.isComment).map Prod.fst

theorem exists_of_mem_commentSpans {entries : List (Span × Piece)} {c : Span}
    (h : c ∈ commentSpans entries) : ∃ entry ∈ entries, entry.2.isComment = true ∧ c = entry.1 := by
  obtain ⟨entry, hentry, rfl⟩ := List.mem_map.mp h
  obtain ⟨hmem, hcomment⟩ := List.mem_filter.mp hentry
  exact ⟨entry, hmem, hcomment, rfl⟩

/-- Outside spans that hold the comments and nothing else, the sources of the other pieces are
left. -/
theorem outsideFrom_flatMap_source {spans : List Span} {offset : Nat} {pieces : List Piece}
    (h : ∀ entry ∈ placed offset pieces, ∀ i, entry.1.start ≤ i → i < entry.1.stop →
      spans.any (·.holds i) = entry.2.isComment) :
    Text.outsideFrom spans offset (pieces.flatMap Piece.source) =
      (pieces.filter fun piece => !piece.isComment).flatMap Piece.source := by
  induction pieces generalizing offset with
  | nil => rfl
  | cons piece rest ih =>
      obtain ⟨hhere, hrest⟩ := List.forall_mem_cons.mp h
      rw [List.flatMap_cons, Text.outsideFrom_append, ih hrest]
      cases hpiece : piece.isComment with
      | true =>
          rw [List.filter_cons_of_neg (by simp [hpiece]),
            Text.outsideFrom_eq_nil fun i h1 h2 => (hhere i h1 h2).trans hpiece, List.nil_append]
      | false =>
          rw [List.filter_cons_of_pos (by simp [hpiece]), List.flatMap_cons,
            Text.outsideFrom_eq_self fun i h1 h2 => (hhere i h1 h2).trans hpiece]

theorem disjoint_of_mem {entries : List (Span × Piece)}
    (hpairwise : entries.Pairwise fun a b => a.1.stop ≤ b.1.start) {a b : Span × Piece}
    (ha : a ∈ entries) (hb : b ∈ entries) (hne : a ≠ b) :
    a.1.stop ≤ b.1.start ∨ b.1.stop ≤ a.1.start := by
  obtain ⟨i, hi, rfl⟩ := List.getElem_of_mem ha
  obtain ⟨j, hj, rfl⟩ := List.getElem_of_mem hb
  rcases Nat.lt_trichotomy i j with hlt | rfl | hlt
  · exact .inl (List.pairwise_iff_getElem.mp hpairwise i j hi hj hlt)
  · exact absurd rfl hne
  · exact .inr (List.pairwise_iff_getElem.mp hpairwise j i hj hi hlt)

theorem any_holds_commentSpans {entries : List (Span × Piece)}
    (hpairwise : entries.Pairwise fun a b => a.1.stop ≤ b.1.start) {entry : Span × Piece}
    (hentry : entry ∈ entries) {i : Nat} (h1 : entry.1.start ≤ i) (h2 : i < entry.1.stop) :
    (commentSpans entries).any (·.holds i) = entry.2.isComment := by
  cases hcomment : entry.2.isComment with
  | true =>
      refine List.any_eq_true.mpr ⟨entry.1, ?_, ?_⟩
      · exact List.mem_map_of_mem (List.mem_filter.mpr ⟨hentry, hcomment⟩)
      · exact Span.holds_iff.mpr ⟨h1, h2⟩
  | false =>
      rw [List.any_eq_false]
      intro s hs
      obtain ⟨other, hmem, hcomment', rfl⟩ := exists_of_mem_commentSpans hs
      have hne : entry ≠ other := by
        rintro rfl
        rw [hcomment] at hcomment'
        simp at hcomment'
      rw [Span.holds_iff]
      have := disjoint_of_mem hpairwise hentry hmem hne
      omega

namespace Template

/-- The literals with the source of a slot between each two of them. -/
def source (template : Template) : Text :=
  template.opening ++ template.parts.flatMap fun part => part.1.raw ++ part.2

theorem ofPieces_cons (piece : Piece) (rest : List Piece) :
    ofPieces (piece :: rest) = cons piece (ofPieces rest) := rfl

theorem source_ofPieces (pieces : List Piece) :
    (ofPieces pieces).source =
      (pieces.filter fun piece => !piece.isComment).flatMap Piece.source := by
  induction pieces with
  | nil => rfl
  | cons piece rest ih =>
      rw [ofPieces_cons]
      cases piece with
      | comment source =>
          rw [List.filter_cons_of_neg (by simp [Piece.isComment])]
          exact ih
      | literal source =>
          rw [List.filter_cons_of_pos rfl, List.flatMap_cons, ← ih]
          simp [Template.source, cons, Piece.source]
      | slot s =>
          rw [List.filter_cons_of_pos rfl, List.flatMap_cons, ← ih]
          simp [Template.source, cons, Piece.source]

theorem slots_ofPieces (pieces : List Piece) :
    (ofPieces pieces).slots = pieces.filterMap Piece.slot? := by
  induction pieces with
  | nil => rfl
  | cons piece rest ih =>
      rw [ofPieces_cons]
      cases piece with
      | literal source => exact ih
      | comment source => exact ih
      | slot s =>
          rw [List.filterMap_cons, ← ih]
          rfl

theorem slots_eq_filterMap_placed (t : Text) :
    (ofText t).slots = (placed 0 (pieces t)).filterMap fun entry => entry.2.slot? := by
  unfold ofText
  rw [slots_ofPieces]
  conv => lhs; rw [← map_snd_placed 0 (pieces t), List.filterMap_map]
  rfl

theorem exists_placed_of_mem_slots {t : Text} {s : Slot} (h : s ∈ (ofText t).slots) :
    ∃ entry ∈ placed 0 (pieces t), entry.2 = .slot s ∧ s.start = entry.1.start ∧
      s.stop = entry.1.stop := by
  rw [slots_eq_filterMap_placed] at h
  obtain ⟨entry, hentry, heq⟩ := List.mem_filterMap.mp h
  have hlies := liesAt_of_mem_placed (Cursor.isIn_ofOffset t 0) hentry
  exact ⟨entry, hentry, Piece.eq_of_slot? heq, hlies.slot s heq⟩

/-- Outside its comments a text is what the template is put together from. -/
theorem outside_commentSpans (t : Text) :
    t.outside (commentSpans (placed 0 (pieces t))) = (ofText t).source := by
  have hpairwise := pairwise_placed 0 (pieces t)
  calc t.outside (commentSpans (placed 0 (pieces t)))
      = Text.outside (commentSpans (placed 0 (pieces t))) ((pieces t).flatMap Piece.source) := by
        rw [flatMap_source_pieces]
    _ = ((pieces t).filter fun piece => !piece.isComment).flatMap Piece.source :=
        outsideFrom_flatMap_source fun entry hentry i h1 h2 =>
          any_holds_commentSpans hpairwise hentry h1 h2
    _ = (ofText t).source := (source_ofPieces (pieces t)).symm

/-- The literals and the sources of the slots are the text without its comments.  Every slot is what
stands in its span, slots lie one behind the other, and every comment lies clear of them. -/
theorem exists_comments_ofText (t : Text) :
    let template := ofText t
    template.literals.length = template.slots.length + 1 ∧
    (∀ s ∈ template.slots, s.start < s.stop ∧ s.stop ≤ t.length ∧ s.raw = t.slice s.start s.stop) ∧
    template.slots.Pairwise (fun a b => a.start < b.start ∧ a.stop ≤ b.start) ∧
    ∃ comments : List Span, (∀ c ∈ comments, CommentAt t c) ∧
      comments.Pairwise (fun a b => a.stop ≤ b.start) ∧
      (∀ c ∈ comments, ∀ s ∈ template.slots, c.stop ≤ s.start ∨ s.stop ≤ c.start) ∧
      template.source = t.outside comments := by
  intro template
  let entries := placed 0 (pieces t)
  have hlies : ∀ entry ∈ entries, entry.2.LiesAt t entry.1 := fun entry hentry =>
    liesAt_of_mem_placed (Cursor.isIn_ofOffset t 0) hentry
  have hpairwise : entries.Pairwise fun a b => a.1.stop ≤ b.1.start := pairwise_placed 0 (pieces t)
  refine ⟨length_literals template, ?_, ?_, commentSpans entries, ?_, ?_, ?_,
    (outside_commentSpans t).symm⟩
  · intro s hs
    obtain ⟨entry, hentry, heq, hstart, hstop⟩ := exists_placed_of_mem_slots hs
    obtain ⟨hlt, hle, hsource, -, -⟩ := hlies entry hentry
    rw [heq] at hsource
    rw [hstart, hstop]
    exact ⟨hlt, hle, hsource⟩
  · rw [slots_eq_filterMap_placed, List.pairwise_filterMap]
    refine hpairwise.imp_of_mem fun {a b} ha hb hle s hs s' hs' => ?_
    obtain ⟨hstart, hstop⟩ := (hlies a ha).slot s hs
    obtain ⟨hstart', -⟩ := (hlies b hb).slot s' hs'
    have hlt := (hlies a ha).start_lt_stop
    omega
  · intro c hc
    obtain ⟨entry, hentry, heq, rfl⟩ := exists_of_mem_commentSpans hc
    exact (hlies entry hentry).comment heq
  · exact List.pairwise_map.mpr (hpairwise.filter _)
  · intro c hc s hs
    obtain ⟨a, ha, hcomment, rfl⟩ := exists_of_mem_commentSpans hc
    obtain ⟨b, hb, heq, hstart, hstop⟩ := exists_placed_of_mem_slots hs
    have hne : a ≠ b := by
      rintro rfl
      simp [heq, Piece.isComment] at hcomment
    rw [hstart, hstop]
    exact disjoint_of_mem hpairwise ha hb hne

/-- Two slots, a comment, an unfinished tag and an unclosed brace. -/
theorem exists_comments_ofText_malformed :
    let t := text "\x7b a \x7d\x7b/* \x7bc\x7d */\x7d<B p=\x7bb\x7d <C /> \x7b"
    (ofText t).source = text "\x7b a \x7d<B p=\x7bb\x7d <C /> \x7b" ∧
      (ofText t).slots.map (fun s => (s.start, s.stop)) = [(0, 5), (25, 30)] ∧
      ∃ comments : List Span, (∀ c ∈ comments, CommentAt t c) ∧
        t.outside comments = text "\x7b a \x7d<B p=\x7bb\x7d <C /> \x7b" := by
  intro t
  have hsource : (ofText t).source = text "\x7b a \x7d<B p=\x7bb\x7d <C /> \x7b" := by
    decide +kernel
  obtain ⟨-, -, -, comments, hcomments, -, -, hrest⟩ := exists_comments_ofText t
  exact ⟨hsource, by decide +kernel, comments, hcomments, by rw [← hrest, hsource]⟩

end Template

end InverseTemplate
