/-
# The paths of a template

A braced expression becomes a slot for a plain path only if it is one.  So every key on the way
that such a slot names is a word of its own, and joining the keys gives the path again.
-/
import InverseTemplate.Proofs.Text.Split
import InverseTemplate.Proofs.Text.Strip
import InverseTemplate.Template.Split
import InverseTemplate.Value.Path

namespace InverseTemplate

/-! ## From pieces to slots -/

theorem SlotContent.eq_of_ofExpression {e path : Text} (h : ofExpression e = .expression path) :
    path = e ∧ Expression.isPath e = true := by
  unfold ofExpression at h
  split at h
  · next hkind =>
      cases h
      unfold Expression.kind at hkind
      split at hkind
      · simp at hkind
      · split at hkind
        · simp at hkind
        · split at hkind
          · next hpath => exact ⟨rfl, hpath⟩
          · simp at hkind
  · simp at h
  · simp at h
  · simp at h

/-- What the slots for plain paths hold: a trimmed text that is a path. -/
def Slot.NamesPath (slot : Slot) : Prop :=
  ∀ path, slot.content = .expression path → Text.strip path = path ∧ Expression.isPath path = true

theorem namesPath_of_componentAt? {c : Cursor} {s : Slot} (h : componentAt? c = some s) :
    s.NamesPath := by
  unfold componentAt? at h
  split at h
  · simp at h
  · dsimp only at h
    split at h
    · cases h
      intro path hpath
      simp at hpath
    · rw [Option.map_eq_some_iff] at h
      obtain ⟨closing, -, rfl⟩ := h
      intro path hpath
      simp at hpath

theorem Piece.namesPath_of_ofCursor {regions : List Span} {c : Cursor} {first : Char} {more : Text}
    {s : Slot} (h : ofCursor regions c first more = .slot s) : s.NamesPath := by
  unfold ofCursor at h
  split at h
  · split at h
    · simp at h
    · split at h
      · unfold ofBrace at h
        split at h
        · simp at h
        · dsimp only at h
          split at h
          · simp at h
          · split at h
            · simp at h
            · cases h
              intro path hpath
              obtain ⟨rfl, hisPath⟩ := SlotContent.eq_of_ofExpression hpath
              exact ⟨Text.strip_strip _, hisPath⟩
      · unfold ofAngle at h
        split at h
        · next hs =>
            cases h
            exact namesPath_of_componentAt? hs
        · simp at h
  · simp at h

theorem namesPath_of_mem_piecesFrom {regions : List Span} {c : Cursor} {s : Slot}
    (h : .slot s ∈ piecesFrom regions c) : s.NamesPath := by
  fun_induction piecesFrom regions c with
  | case1 => simp at h
  | case2 c first more hrest piece ih =>
      rcases List.mem_cons.mp h with heq | hmem
      · exact Piece.namesPath_of_ofCursor heq.symm
      · exact ih hmem

theorem Template.mem_slots_ofPieces {pieces : List Piece} {s : Slot} :
    s ∈ (ofPieces pieces).slots ↔ .slot s ∈ pieces := by
  induction pieces with
  | nil => simp [ofPieces, empty, slots]
  | cons piece rest ih =>
      have hcons : ofPieces (piece :: rest) = cons piece (ofPieces rest) := rfl
      rw [hcons]
      cases piece with
      | literal source => simpa [cons, slots] using ih
      | comment source => simpa [cons, slots] using ih
      | slot s' => simpa [cons, slots] using or_congr Iff.rfl ih

theorem Template.namesPath_of_mem_slots {source : Text} {s : Slot}
    (h : s ∈ (ofText source).slots) : s.NamesPath :=
  namesPath_of_mem_piecesFrom (mem_slots_ofPieces.mp h)

/-! ## Keys -/

theorem Slot.NamesPath.ne_nil_of_mem_split {slot : Slot} (h : slot.NamesPath) {path key : Text}
    (hpath : slot.content = .expression path) (hkey : key ∈ Path.split path) : key ≠ [] := by
  obtain ⟨hstrip, hisPath⟩ := h path hpath
  have hsame : Expression.withoutLineFeed path = path := by
    unfold Expression.withoutLineFeed
    rw [if_neg]
    intro hlast
    exact absurd (Text.isBlank_getLast_of_strip_eq hstrip hlast) (by decide)
  rw [Expression.isPath, hsame, List.all_eq_true] at hisPath
  have hsegment := hisPath key hkey
  rintro rfl
  simp [Expression.isSegment] at hsegment

namespace Path

theorem eq_or_isBelow_of_split_prefix {p q : Text} (h : split p <+: split q) :
    p = q ∨ isBelow q p = true := by
  obtain ⟨more, hmore⟩ := h
  have hp : ['.'].intercalate (p.splitOn '.') = p := List.intercalate_splitOn '.'
  have hq : ['.'].intercalate (q.splitOn '.') = q := List.intercalate_splitOn '.'
  unfold split at hmore
  cases more with
  | nil =>
      rw [List.append_nil] at hmore
      rw [hmore, hq] at hp
      exact .inl hp.symm
  | cons y ys =>
      rw [← hmore, Text.intercalate_append (List.splitOn_ne_nil '.' p), hp] at hq
      exact .inr (List.isPrefixOf_iff_prefix.mpr ⟨_, hq⟩)

theorem foldl_join {a : Text} (ha : a ≠ []) (keys : List Text) :
    keys.foldl join a = List.intercalate ['.'] (a :: keys) := by
  induction keys generalizing a with
  | nil => simp
  | cons key rest ih =>
      have hjoin : join a key = a ++ '.' :: key := by rw [join, if_neg ha]
      rw [List.foldl_cons, hjoin, ih (by simp)]
      cases rest <;> simp

theorem foldl_join_split {path : Text} (h : ∀ key ∈ split path, key ≠ []) :
    (split path).foldl join [] = path := by
  have hpath : ['.'].intercalate (path.splitOn '.') = path := List.intercalate_splitOn '.'
  unfold split at h ⊢
  cases hs : List.splitOn '.' path with
  | nil => exact absurd hs (List.splitOn_ne_nil '.' path)
  | cons key rest =>
      rw [hs] at h hpath
      rw [List.foldl_cons, join, if_pos rfl, foldl_join (h key (List.mem_cons_self ..)), hpath]

end Path

end InverseTemplate
