/-
# Comments

A comment leaves nothing behind, so a template that is one comment should have no slot and nothing
in its literal.  Where a comment ends, however, is found by counting braces, like the end of any
other group, and what the group holds is looked at only afterwards.  So a comment vanishes exactly
if the braces in its body belong together (`Template.ofText_comment_iff_balanced`); code in the
body, line ends and blanks make no difference.

With an opening brace too many in the body the comment has no end and stays as text.  With a closing
one too many it ends at this brace, and its beginning is taken for an expression
(`Template.ofText_comment_closingBrace`).
-/
import InverseTemplate.Proofs.Template.Isolated
import InverseTemplate.Proofs.Template.Partition

namespace InverseTemplate

/-! ## What a group must hold to be a comment -/

namespace Expression

theorem isComment_iff {expression : Text} :
    isComment expression = true ↔
      4 ≤ expression.length ∧ ['/', '*'] <+: expression ∧ ['*', '/'] <:+ expression := by
  rw [isComment, Bool.and_eq_true, Bool.and_eq_true, decide_eq_true_eq, and_assoc,
    List.isPrefixOf_iff_prefix, List.isSuffixOf_iff_suffix]

/-- What begins like a comment and is one, once it is trimmed, holds the mark of its end behind that
of its beginning. -/
theorem infix_of_isComment {content : Text}
    (h : isComment (Text.strip ('/' :: '*' :: content)) = true) : ['*', '/'] <:+: content := by
  obtain ⟨hlength, hbegin, hend⟩ := isComment_iff.mp h
  obtain ⟨u, hu⟩ := hbegin
  have hstart : u <+: content := by
    have hprefix := Text.stripRight_isPrefix (Text.stripLeft ('/' :: '*' :: content))
    rw [← Text.strip, ← hu] at hprefix
    simpa [Text.stripLeft, Text.isBlank] using hprefix
  -- both marks fit into the four characters, so the second one lies behind the first
  have hbehind : ['*', '/'] <:+ u := by
    refine List.suffix_of_suffix_length_le hend ⟨['/', '*'], hu⟩ ?_
    rw [← hu] at hlength
    simp only [List.length_append, List.length_cons, List.length_nil] at hlength ⊢
    omega
  exact hbehind.isInfix.trans hstart.isInfix

theorem isComment_strip_comment (body : Text) :
    isComment (Text.strip ('/' :: '*' :: (body ++ ['*', '/']))) = true := by
  have hkept : Text.strip ('/' :: '*' :: (body ++ ['*', '/'])) =
      '/' :: '*' :: (body ++ ['*', '/']) := by
    rw [Text.strip, Text.stripLeft, List.dropWhile_cons_of_neg (by decide)]
    refine Text.stripRight_eq_self ?_
    intro c hc
    rw [show '/' :: '*' :: (body ++ ['*', '/']) = ('/' :: '*' :: (body ++ ['*'])) ++ ['/'] by simp,
      List.getLast?_concat] at hc
    cases hc
    decide
  rw [hkept]
  refine isComment_iff.mpr ⟨by simp, ⟨_, rfl⟩, ⟨'/' :: '*' :: body, by simp⟩⟩

end Expression

theorem balanced_comment_iff {body : Text} :
    Balanced ('/' :: '*' :: (body ++ ['*', '/'])) ↔ Balanced body := by
  have hend : Balanced ['*', '/'] :=
    .plain (by decide) (by decide) (.plain (by decide) (by decide) .nil)
  have hopen : Balanced ('/' :: '*' :: (body ++ ['*', '/'])) ↔ Balanced (body ++ ['*', '/']) := by
    rw [balanced_iff_closes, closes_plain_iff (by decide) (by decide),
      closes_plain_iff (by decide) (by decide), ← balanced_iff_closes]
  rw [hopen]
  constructor
  · intro h
    exact h.of_append hend
  · intro h
    exact balanced_iff_closes.mpr
      ((balanced_iff_closes.mp h).append (balanced_iff_closes.mp hend))

namespace Piece

variable {c : Cursor} {inner : Text}

theorem isComment_ofBrace_iff :
    (ofBrace c inner).isComment = true ↔
      ∃ content rest, Balanced content ∧ inner = content ++ '\x7d' :: rest ∧
        Expression.isComment (Text.strip content) = true := by
  constructor
  · intro h
    rw [ofBrace] at h
    split at h
    · cases h
    · next n hn =>
        obtain ⟨content, rest, hbalanced, rfl, rfl⟩ := exists_balanced hn
        simp only [List.take_left] at h
        refine ⟨content, rest, hbalanced, rfl, ?_⟩
        split at h
        · assumption
        · split at h <;> cases h
  · rintro ⟨content, rest, hbalanced, rfl, hcomment⟩
    rw [ofBrace, braceLength?_zero_eq_some_iff.mpr ⟨content, rest, hbalanced, rfl, rfl⟩]
    simp only [List.take_left, hcomment, if_true]
    rfl

end Piece

namespace Template

/-- The source of a comment with the given body. -/
def comment (body : Text) : Text := '\x7b' :: '/' :: '*' :: (body ++ ['*', '/', '\x7d'])

theorem isComment_of_cons {piece : Piece} {rest : Template} (hsource : piece.source ≠ [])
    (hslots : (cons piece rest).slots = []) (hliterals : (cons piece rest).literals = [[]]) :
    piece.isComment = true := by
  cases piece with
  | comment source => rfl
  | slot s => simp [cons, slots] at hslots
  | literal source =>
      have hopening : source ++ rest.opening = [] := (List.cons.inj hliterals).1
      exact absurd (List.append_eq_nil_iff.mp hopening).1 hsource

theorem ofCursor_comment (body : Text) :
    Piece.ofCursor (codeRegions (comment body)) ⟨0, comment body⟩ '\x7b'
        ('/' :: '*' :: (body ++ ['*', '/', '\x7d'])) =
      Piece.ofBrace ⟨0, comment body⟩ ('/' :: '*' :: (body ++ ['*', '/', '\x7d'])) := by
  have hnone : Span.containing? (codeRegions (comment body)) 0 = none :=
    containing?_codeRegions_zero (.inl rfl)
  rw [Piece.ofCursor, if_pos (.inl rfl), hnone, if_pos rfl]

theorem ofText_comment_of_balanced {body : Text} (h : Balanced body) :
    ofText (comment body) = empty := by
  have hinner : '/' :: '*' :: (body ++ ['*', '/', '\x7d']) =
      '/' :: '*' :: (body ++ ['*', '/']) ++ ['\x7d'] := by simp
  have hfound : braceLength? 0 ('/' :: '*' :: (body ++ ['*', '/', '\x7d'])) =
      some ('/' :: '*' :: (body ++ ['*', '/'])).length :=
    braceLength?_zero_eq_some_iff.mpr ⟨_, [], balanced_comment_iff.mpr h, hinner, rfl⟩
  have hpiece : Piece.ofBrace ⟨0, comment body⟩ ('/' :: '*' :: (body ++ ['*', '/', '\x7d'])) =
      .comment (comment body) := by
    rw [Piece.ofBrace, hfound]
    simp only [hinner, List.take_left, Expression.isComment_strip_comment, if_true]
    congr 1
    exact List.take_of_length_le (by simp [comment])
  rw [ofText, comment, pieces_eq_singleton ((ofCursor_comment body).trans hpiece) rfl]
  rfl

/-- A comment whose body does not hold the mark of its end leaves neither a slot nor literal text
exactly if the braces of the body belong together. -/
theorem ofText_comment_iff_balanced {body : Text} (h : ¬ ['*', '/'] <:+: body) :
    (ofText (comment body)).slots = [] ∧ (ofText (comment body)).literals = [[]] ↔
      Balanced body := by
  constructor
  · rintro ⟨hslots, hliterals⟩
    have hpiece : (Piece.ofBrace ⟨0, comment body⟩
        ('/' :: '*' :: (body ++ ['*', '/', '\x7d']))).isComment = true := by
      rw [← ofCursor_comment]
      rw [ofText, pieces, show Cursor.ofOffset (comment body) 0 = ⟨0, comment body⟩ from rfl,
        piecesFrom_cons (c := ⟨0, comment body⟩) rfl, ofPieces_cons] at hslots hliterals
      refine isComment_of_cons ?_ hslots hliterals
      have hcons : (⟨0, comment body⟩ : Cursor).rest =
          '\x7b' :: '/' :: '*' :: (body ++ ['*', '/', '\x7d']) := rfl
      obtain ⟨n, hn, hsource⟩ := Piece.source_ofCursor (codeRegions (comment body)) hcons
      rw [hsource, comment]
      cases n with
      | zero => omega
      | succ n => simp
    obtain ⟨content, rest, hbalanced, hcut, hcomment⟩ := Piece.isComment_ofBrace_iff.mp hpiece
    obtain ⟨u, rfl⟩ : ∃ u, content = '/' :: '*' :: u := by
      rcases content with _ | ⟨a, _ | ⟨b, u⟩⟩
      · simp at hcut
      · simp at hcut
      · simp only [List.cons_append, List.cons.injEq] at hcut
        exact ⟨u, by rw [hcut.1, hcut.2.1]⟩
    simp only [List.cons_append, List.cons.injEq, true_and] at hcut
    rcases List.append_eq_append_iff.mp hcut with ⟨v, rfl, hv⟩ | ⟨v, rfl, hv⟩
    · -- the group ends behind the body, and that is where the comment ends
      rcases v with _ | ⟨a, _ | ⟨b, _ | ⟨d, v⟩⟩⟩
      · simp at hv
      · simp at hv
      · simp only [List.cons_append, List.nil_append, List.cons.injEq] at hv
        obtain ⟨rfl, rfl, -, rfl⟩ := hv
        exact balanced_comment_iff.mp hbalanced
      · simp at hv
    · -- the group ends in the body, in front of the end of the comment
      exact absurd ((Expression.infix_of_isComment hcomment).trans
        (List.prefix_append u v).isInfix) h
  · intro hbalanced
    rw [ofText_comment_of_balanced hbalanced]
    exact ⟨rfl, rfl⟩

/-- A body that opens a fence and holds a group of braces. -/
theorem ofText_comment_iff_balanced_fence :
    let body := text "\n\x60\x60\x60\n\x7bx\x7d"
    ¬ ['*', '/'] <:+: body ∧ Balanced body ∧ (ofText (comment body)).slots = [] ∧
      (ofText (comment body)).literals = [[]] := by
  intro body
  have hbody : ¬ ['*', '/'] <:+: body := by decide +kernel
  have hbalanced : Balanced body := by decide +kernel
  have hiff := ofText_comment_iff_balanced hbody
  exact ⟨hbody, hbalanced, hiff.mpr hbalanced⟩

/-- A comment that holds a closing brace ends there: what is in front of the brace is a slot, and
what is behind it stays as text. -/
theorem ofText_comment_closingBrace :
    let body := text "\x7d"
    ¬ ['*', '/'] <:+: body ∧
      (ofText (comment body)).slots = [⟨.conditional (text "/*"), text "\x7b/*\x7d", 0, 4⟩] ∧
      (ofText (comment body)).literals = [[], text "*/\x7d"] := by
  decide +kernel

end Template

end InverseTemplate
