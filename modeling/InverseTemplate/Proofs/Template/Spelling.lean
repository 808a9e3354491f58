/-
# How a tag is spelled

A tag is a less-than sign, a name, any number of attributes and a closing mark.  `Tag.Spelled` is
this grammar, on the text of the tag and the text behind it: a name is a run of characters that is
not continued behind it, a value in braces is a group, a quoted one ends at the next quote of its
kind, and blanks may stand in front of each attribute, on both sides of an equals sign and in
front of the mark.

The scan finds a tag exactly where one is spelled (`Tag.scan_eq_some_iff`), and the tag ends
behind its mark.  The scan steps over blanks where it can, so the grammar is left open on which of
two neighbours a blank belongs to, and the induction over the attributes carries them along in
front of the rest.

Of the attributes only the names and the contents in braces are kept (`Tag.Attribute`).  What the
tag holds of them is read off the bindings that are not blank, in their order
(`Tag.Attribute.bindings`).
-/
import InverseTemplate.Proofs.Entries
import InverseTemplate.Proofs.Template.Braces
import InverseTemplate.Proofs.Template.Excerpt
import InverseTemplate.Proofs.Template.Extent
import InverseTemplate.Proofs.Text.Strip

namespace InverseTemplate

/-! ## Words -/

namespace Text

/-- A word begins with a character of one kind, goes on with characters of another, and is not
continued by the text behind it. -/
def IsWord (start inside : Char → Bool) (word behind : Text) : Prop :=
  (∃ first more, word = first :: more ∧ start first = true ∧ ∀ c ∈ more, inside c = true) ∧
    ∀ c, behind.head? = some c → inside c = false

variable {start inside : Char → Bool}

theorem isWord_takeWhile {first : Char} (h : start first = true) (r : Text) :
    IsWord start inside (first :: r.takeWhile inside) (r.dropWhile inside) :=
  ⟨⟨first, _, rfl, h, fun _ hc => List.mem_takeWhile_imp hc⟩,
    fun _ hc => head?_dropWhile_eq_false hc⟩

theorem IsWord.exists_cons {word behind : Text} (h : IsWord start inside word behind) :
    ∃ first r, word ++ behind = first :: r ∧ start first = true ∧
      word = first :: r.takeWhile inside ∧ behind = r.dropWhile inside := by
  obtain ⟨⟨first, more, rfl, hfirst, hmore⟩, hstop⟩ := h
  obtain ⟨htake, hdrop⟩ := takeWhile_append_of_stop hmore hstop
  exact ⟨first, more ++ behind, rfl, hfirst, by rw [htake], hdrop.symm⟩

end Text

/-! ## The grammar -/

namespace Tag

/-- An attribute: its name and, if its value is in braces, what stands between them. -/
structure Attribute where
  name : Text
  content : Option Text

/-- How a value is spelled, and what stands between its braces, if it has them. -/
inductive Value : Option Text → Text → Prop
  | braces {content : Text} : IsGroup ('\x7b' :: (content ++ ['\x7d'])) →
      Value (some content) ('\x7b' :: (content ++ ['\x7d']))
  | quotes {quote : Char} {content : Text} : quote = '"' ∨ quote = '\'' → quote ∉ content →
      Value none (quote :: (content ++ [quote]))

/-- How it is spelled what an attribute is set to: not at all, or behind an equals sign. -/
inductive Assignment : Option Text → Text → Prop
  | bare : Assignment none []
  | given {content : Option Text} {front back value : Text} :
      Text.AllBlank front → Text.AllBlank back → Value content value →
      Assignment content (front ++ '=' :: (back ++ value))

/-- How an attribute is spelled in front of a text. -/
inductive Attribute.Spelled : Attribute → Text → Text → Prop
  | named {name assignment behind : Text} {content : Option Text} :
      Text.IsWord isAttributeStart isAttributeChar name (assignment ++ behind) →
      Assignment content assignment → Spelled ⟨name, content⟩ (name ++ assignment) behind

/-- The mark at the end of a tag. -/
def closingMark (selfClosing : Bool) : Text := if selfClosing then ['/', '>'] else ['>']

/-- How what follows the name of a tag is spelled in front of a text. -/
inductive Tail (selfClosing : Bool) (behind : Text) : List Attribute → Text → Prop
  | mark {blanks : Text} : Text.AllBlank blanks →
      Tail selfClosing behind [] (blanks ++ closingMark selfClosing)
  | cons {a : Attribute} {attributes : List Attribute} {blanks source more : Text} :
      Text.AllBlank blanks → a.Spelled source (more ++ behind) →
      Tail selfClosing behind attributes more →
      Tail selfClosing behind (a :: attributes) (blanks ++ (source ++ more))

/-- A character that the name of a tag may begin with. -/
def isNameStart (c : Char) : Bool := 'A' ≤ c && c ≤ 'Z'

/-- How a tag is spelled in front of a text. -/
inductive Spelled (attributes : List Attribute) (selfClosing : Bool) (behind : Text) :
    Text → Text → Prop
  | tag {name tail : Text} : Text.IsWord isNameStart Text.isWordChar name (tail ++ behind) →
      Tail selfClosing behind attributes tail →
      Spelled attributes selfClosing behind name ('<' :: (name ++ tail))

/-! ## Bindings -/

namespace Attribute

/-- What an attribute binds its name to: the trimmed content of its braces, unless it is blank. -/
def binding? (a : Attribute) : Option (Text × Text) :=
  a.content.bind fun content =>
    if Text.strip content = [] then none else some (a.name, Text.strip content)

/-- The names that attributes bind and what they bind them to, in their order. -/
def bindings (attributes : List Attribute) : List (Text × Text) := attributes.filterMap binding?

/-- The bound attributes of a tag with one attribute more. -/
def bindTo (props : Entries Text) (a : Attribute) : Entries Text :=
  match a.content with
  | some content => Tag.bind props a.name content
  | none => props

theorem foldl_bindTo (attributes : List Attribute) (props : Entries Text) :
    attributes.foldl bindTo props =
      (bindings attributes).foldl (fun m write => Entries.set m write.1 write.2) props := by
  induction attributes generalizing props with
  | nil => rfl
  | cons a attributes ih =>
      obtain ⟨name, content⟩ := a
      rw [List.foldl_cons, ih, bindings, bindings, List.filterMap_cons]
      cases content with
      | none => rfl
      | some content =>
          by_cases hblank : Text.strip content = []
          · simp [bindTo, binding?, Tag.bind, hblank]
          · simp [bindTo, binding?, Tag.bind, hblank]

end Attribute

/-- The bound attributes of a tag: each name once, in the order in which the names were first
bound, and under each what it was bound to last. -/
def Holds (attributes : List Attribute) (props : Entries Text) : Prop :=
  Entries.keys props = ((Attribute.bindings attributes).map Prod.fst).eraseDups ∧
    ∀ name, Entries.get? props name = Entries.get? (Attribute.bindings attributes).reverse name

theorem holds_iff {attributes : List Attribute} {props : Entries Text} :
    Holds attributes props ↔ props = attributes.foldl Attribute.bindTo [] := by
  rw [Attribute.foldl_bindTo]
  exact Entries.eq_ofWrites_iff.symm

/-! ## What the scan steps over -/

theorem scanValue_eq_ok_iff {props : Entries Text} {attrName : Text} {c : Cursor}
    {v : Entries Text × Cursor} :
    scanValue props attrName c = .ok v ↔
      ∃ content source behind, Value content source ∧ c.rest = source ++ behind ∧
        v = (Attribute.bindTo props ⟨attrName, content⟩, ⟨c.offset + source.length, behind⟩) := by
  constructor
  · intro h
    rw [scanValue] at h
    split at h
    · cases h
    · next first inner hrest =>
        split at h
        · next hbrace =>
            split at h
            · next n hn =>
                cases h
                obtain ⟨content, behind, hbalanced, rfl, rfl⟩ := braceLength?_zero_eq_some_iff.mp hn
                refine ⟨_, _, behind, .braces (isGroup_iff_balanced.mpr hbalanced), ?_, ?_⟩
                · rw [hrest, hbrace]
                  simp
                · simp [Attribute.bindTo, Cursor.advance, hrest]
            · cases h
        · split at h
          · next hquote =>
              split at h
              · next n hn =>
                  cases h
                  obtain ⟨content, behind, rfl, hmem, rfl⟩ := Text.findIdx?_eq_some_iff_append.mp hn
                  refine ⟨none, _, behind, .quotes hquote hmem, ?_, ?_⟩
                  · rw [hrest]
                    simp
                  · simp [Attribute.bindTo, Cursor.advance, hrest]
              · cases h
          · cases h
  · rintro ⟨content, source, behind, hvalue, hrest, rfl⟩
    cases hvalue with
    | @braces content hgroup =>
        have hn : braceLength? 0 (content ++ '\x7d' :: behind) = some content.length :=
          braceLength?_zero_eq_some_iff.mpr
            ⟨content, behind, isGroup_iff_balanced.mp hgroup, rfl, rfl⟩
        simp [scanValue, hrest, hn, Attribute.bindTo, Cursor.advance]
    | @quotes quote content hquote hmem =>
        have hn : (content ++ quote :: behind).findIdx? (· = quote) = some content.length :=
          Text.findIdx?_eq_some_iff_append.mpr ⟨content, behind, rfl, hmem, rfl⟩
        have hbrace : quote ≠ '\x7b' := by
          rintro rfl
          revert hquote
          decide
        simp [scanValue, hrest, hn, hbrace, hquote, Attribute.bindTo, Cursor.advance]

theorem code_of_isAttributeStart {c : Char} (h : isAttributeStart c = true) :
    65 ≤ c.toNat ∧ c.toNat ≤ 122 := by
  simp only [isAttributeStart, Text.isAsciiLetter, Bool.or_eq_true, Bool.and_eq_true,
    decide_eq_true_eq, Char.le_def, UInt32.le_iff_toNat_le] at h
  rcases h with (h | h) | rfl
  · exact ⟨Nat.le_trans (by decide) h.1, h.2⟩
  · exact ⟨h.1, Nat.le_trans h.2 (by decide)⟩
  · decide

theorem isBlank_of_isAttributeStart {c : Char} (h : isAttributeStart c = true) :
    Text.isBlank c = false := by
  have hcode := code_of_isAttributeStart h
  simp only [Text.isBlank, Bool.or_eq_false_iff, Bool.and_eq_false_iff, decide_eq_false_iff_not]
  omega

theorem isWordChar_of_isAttributeStart {c : Char} (h : isAttributeStart c = true) :
    Text.isWordChar c = true := by
  have hcode := code_of_isAttributeStart h
  rw [isAttributeStart, Bool.or_eq_true] at h
  rw [Text.isWordChar, if_pos (by omega), Bool.or_eq_true, Bool.or_eq_true]
  exact h.imp_left .inl

theorem Value.exists_cons {content : Option Text} {source : Text} (h : Value content source) :
    ∃ first r, source = first :: r ∧ Text.isBlank first = false := by
  cases h with
  | braces => exact ⟨_, _, rfl, by decide⟩
  | quotes hquote =>
      refine ⟨_, _, rfl, ?_⟩
      rcases hquote with rfl | rfl <;> decide

theorem Attribute.Spelled.exists_cons {a : Attribute} {source behind : Text}
    (h : a.Spelled source behind) :
    ∃ first r, source = first :: r ∧ isAttributeStart first = true := by
  cases h with
  | named hword =>
      obtain ⟨⟨first, more, rfl, hfirst, -⟩, -⟩ := hword
      exact ⟨first, _, rfl, hfirst⟩

theorem closingMark_eq_cons (selfClosing : Bool) :
    ∃ first r, closingMark selfClosing = first :: r ∧ Text.isBlank first = false := by
  cases selfClosing
  · exact ⟨'>', [], rfl, by decide⟩
  · exact ⟨'/', ['>'], rfl, by decide⟩

variable {selfClosing : Bool} {behind : Text} {attributes : List Attribute}

theorem Tail.append_left {blanks source : Text} (hblanks : Text.AllBlank blanks)
    (h : Tail selfClosing behind attributes source) :
    Tail selfClosing behind attributes (blanks ++ source) := by
  cases h with
  | mark hmore =>
      rw [← List.append_assoc]
      exact .mark (hblanks.append hmore)
  | cons hmore hspelled htail =>
      rw [← List.append_assoc]
      exact .cons (hblanks.append hmore) hspelled htail

theorem Tail.exists_blanks {source : Text} (h : Tail selfClosing behind attributes source) :
    ∃ blanks first r, source = blanks ++ first :: r ∧ Text.AllBlank blanks ∧
      Text.isBlank first = false ∧ Tail selfClosing behind attributes (first :: r) := by
  have hnil : Text.AllBlank [] := by simp [Text.AllBlank]
  cases h with
  | @mark blanks hblanks =>
      obtain ⟨first, r, hmark, hfirst⟩ := closingMark_eq_cons selfClosing
      refine ⟨blanks, first, r, by rw [hmark], hblanks, hfirst, ?_⟩
      rw [← hmark]
      exact .mark hnil
  | @cons a attributes blanks source more hblanks hspelled htail =>
      obtain ⟨first, r, rfl, hfirst⟩ := hspelled.exists_cons
      exact ⟨blanks, first, r ++ more, rfl, hblanks, isBlank_of_isAttributeStart hfirst,
        .cons hnil hspelled htail⟩

/-- The name of a tag is followed by a blank or by the mark, since an attribute right behind it
would be part of it. -/
theorem Tail.head_of_isWord {name tail : Text} (h : Tail selfClosing behind attributes tail)
    (hword : Text.IsWord isNameStart Text.isWordChar name (tail ++ behind)) :
    ∃ c r, tail = c :: r ∧ (Text.isBlank c = true ∨ c = '/' ∨ c = '>') := by
  cases h with
  | @mark blanks hblanks =>
      cases blanks with
      | nil =>
          cases selfClosing
          · exact ⟨'>', [], rfl, .inr (.inr rfl)⟩
          · exact ⟨'/', ['>'], rfl, .inr (.inl rfl)⟩
      | cons d u => exact ⟨d, _, rfl, .inl (hblanks d (List.mem_cons_self ..))⟩
  | @cons a _ blanks source more hblanks hspelled _ =>
      cases blanks with
      | nil =>
          obtain ⟨d, u, rfl, hd⟩ := hspelled.exists_cons
          have hinside := hword.2 d rfl
          rw [isWordChar_of_isAttributeStart hd] at hinside
          cases hinside
      | cons d u => exact ⟨d, _, rfl, .inl (hblanks d (List.mem_cons_self ..))⟩

/-! ## What the scan finds -/

/-- From the place on a tag is spelled to its end, of which the name and some attributes have been
read. -/
def Continues (name : Text) (props : Entries Text) (c : Cursor) (tag : Tag) : Prop :=
  ∃ attributes selfClosing source behind, c.rest = source ++ behind ∧
    Tail selfClosing behind attributes source ∧
    tag = ⟨name, attributes.foldl Attribute.bindTo props, c.offset + source.length, selfClosing⟩

variable {name : Text} {props : Entries Text} {c : Cursor} {tag : Tag}

theorem skipWhile_of_append {p : Char → Bool} {front behind : Text}
    (hrest : c.rest = front ++ behind)
    (hfront : ∀ d ∈ front, p d = true) (hbehind : ∀ d, behind.head? = some d → p d = false) :
    c.skipWhile p = ⟨c.offset + front.length, behind⟩ := by
  obtain ⟨htake, hdrop⟩ := Text.takeWhile_append_of_stop hfront hbehind
  rw [Cursor.skipWhile, Cursor.advance, hrest, htake, List.drop_left]

theorem exists_skipWhile (p : Char → Bool) (c : Cursor) :
    ∃ front, (∀ d ∈ front, p d = true) ∧ c.rest = front ++ (c.skipWhile p).rest ∧
      (c.skipWhile p).offset = c.offset + front.length := by
  refine ⟨c.rest.takeWhile p, fun _ hd => List.mem_takeWhile_imp hd, ?_, rfl⟩
  rw [Cursor.rest_skipWhile, List.takeWhile_append_dropWhile]

theorem continues_skipWhile_iff :
    Continues name props (c.skipWhile Text.isBlank) tag ↔ Continues name props c tag := by
  constructor
  · rintro ⟨attributes, selfClosing, source, behind, hrest, htail, rfl⟩
    obtain ⟨blanks, hblanks, hcut, hoffset⟩ := exists_skipWhile Text.isBlank c
    refine ⟨attributes, selfClosing, blanks ++ source, behind, ?_, htail.append_left hblanks, ?_⟩
    · rw [hcut, hrest, List.append_assoc]
    · rw [hoffset, List.length_append, Nat.add_assoc]
  · rintro ⟨attributes, selfClosing, source, behind, hrest, htail, rfl⟩
    obtain ⟨blanks, first, r, rfl, hblanks, hfirst, htail⟩ := htail.exists_blanks
    have hskip : c.skipWhile Text.isBlank = ⟨c.offset + blanks.length, first :: r ++ behind⟩ := by
      refine skipWhile_of_append (by rw [hrest, List.append_assoc]) hblanks ?_
      rintro d ⟨rfl⟩
      exact hfirst
    refine ⟨attributes, selfClosing, first :: r, behind, by rw [hskip], htail, ?_⟩
    rw [hskip, List.length_append, Nat.add_assoc]

theorem not_continues_nil (h : c.rest = []) : ¬ Continues name props c tag := by
  rintro ⟨attributes, selfClosing, source, behind, hrest, htail, -⟩
  obtain ⟨blanks, first, r, rfl, -⟩ := htail.exists_blanks
  rw [h] at hrest
  simp at hrest

/-- A value is read behind the name of an attribute if one is spelled there, with an equals sign
in front of it and blanks around that. -/
theorem scanValue_behind_iff {attrName : Text} {v : Entries Text × Cursor} :
    (c.skipWhile Text.isBlank).rest.head? = some '=' ∧
        scanValue props attrName (((c.skipWhile Text.isBlank).advance 1).skipWhile Text.isBlank) =
          .ok v ↔
      ∃ content front back value left, Text.AllBlank front ∧ Text.AllBlank back ∧
        Value content value ∧ c.rest = front ++ '=' :: (back ++ value) ++ left ∧
          v = (Attribute.bindTo props ⟨attrName, content⟩,
            ⟨c.offset + (front ++ '=' :: (back ++ value)).length, left⟩) := by
  rw [scanValue_eq_ok_iff]
  constructor
  · rintro ⟨hequals, content, value, left, hvalue, hleft, rfl⟩
    obtain ⟨u, hu⟩ := List.head?_eq_some_iff.mp hequals
    have hu' : ((c.skipWhile Text.isBlank).advance 1).rest = u := by
      rw [Cursor.advance, hu]
      rfl
    obtain ⟨front, hfront, hcut, hoffset⟩ := exists_skipWhile Text.isBlank c
    obtain ⟨back, hback, hcut', hoffset'⟩ :=
      exists_skipWhile Text.isBlank ((c.skipWhile Text.isBlank).advance 1)
    rw [hu', hleft] at hcut'
    refine ⟨content, front, back, value, left, hfront, hback, hvalue, ?_, ?_⟩
    · rw [hcut, hu, hcut']
      simp
    · have hplace : ((c.skipWhile Text.isBlank).advance 1).offset + back.length + value.length =
          c.offset + (front ++ '=' :: (back ++ value)).length := by
        simp only [Cursor.advance, hoffset, List.length_append, List.length_cons]
        omega
      rw [hoffset', hplace]
  · rintro ⟨content, front, back, value, left, hfront, hback, hvalue, hrest, rfl⟩
    have hskip : c.skipWhile Text.isBlank =
        ⟨c.offset + front.length, '=' :: (back ++ (value ++ left))⟩ := by
      refine skipWhile_of_append (by simp [hrest]) hfront ?_
      rintro d ⟨rfl⟩
      decide
    have hnext : ((c.skipWhile Text.isBlank).advance 1).skipWhile Text.isBlank =
        ⟨c.offset + front.length + 1 + back.length, value ++ left⟩ := by
      rw [hskip]
      refine skipWhile_of_append rfl hback ?_
      obtain ⟨d, u, rfl, hd⟩ := hvalue.exists_cons
      rintro e ⟨rfl⟩
      exact hd
    refine ⟨by rw [hskip]; rfl, content, value, left, hvalue, by rw [hnext], ?_⟩
    rw [hnext]
    simp only [Prod.mk.injEq, Cursor.mk.injEq, true_and, and_true, List.length_append,
      List.length_cons]
    omega

/-- The place behind the name of an attribute: a value follows, or the attribute is bare and the tag
goes on. -/
def ContinuesBehind (name : Text) (props : Entries Text) (attrName : Text) (behind : Cursor)
    (tag : Tag) : Prop :=
  Continues name props behind tag ∨
    ∃ v, (behind.rest.head? = some '=' ∧
        scanValue props attrName ((behind.advance 1).skipWhile Text.isBlank) = .ok v) ∧
      Continues name v.1 v.2 tag

theorem continuesBehind_iff {attrName : Text} :
    ContinuesBehind name props attrName (c.skipWhile Text.isBlank) tag ↔
      ∃ content assignment left, Assignment content assignment ∧ c.rest = assignment ++ left ∧
        Continues name (Attribute.bindTo props ⟨attrName, content⟩)
          ⟨c.offset + assignment.length, left⟩ tag := by
  simp only [ContinuesBehind, scanValue_behind_iff, continues_skipWhile_iff]
  constructor
  · rintro (hcontinues | ⟨v, ⟨content, front, back, value, left, hfront, hback, hvalue, hrest, rfl⟩,
      hcontinues⟩)
    · exact ⟨none, [], c.rest, .bare, rfl, hcontinues⟩
    · exact ⟨content, _, left, .given hfront hback hvalue, hrest, hcontinues⟩
  · rintro ⟨content, assignment, left, hassignment, hrest, hcontinues⟩
    cases hassignment with
    | bare =>
        rw [List.nil_append] at hrest
        rw [← hrest] at hcontinues
        exact .inl hcontinues
    | given hfront hback hvalue =>
        exact .inr ⟨_, ⟨content, _, _, _, left, hfront, hback, hvalue, hrest, rfl⟩, hcontinues⟩

/-- At a place that is not blank a tag is closed, or it goes on behind an attribute. -/
theorem continues_cons_iff {first : Char} {r : Text} (hrest : c.rest = first :: r)
    (hfirst : Text.isBlank first = false) :
    Continues name props c tag ↔
      first = '/' ∧ r.head? = some '>' ∧ tag = ⟨name, props, c.offset + 2, true⟩ ∨
      first = '>' ∧ tag = ⟨name, props, c.offset + 1, false⟩ ∨
      ∃ a source left, a.Spelled source left ∧ c.rest = source ++ left ∧
        Continues name (Attribute.bindTo props a) ⟨c.offset + source.length, left⟩ tag := by
  constructor
  · rintro ⟨attributes, selfClosing, source, behind, hsource, htail, rfl⟩
    rw [hrest] at hsource
    cases htail with
    | mark hblanks =>
        rw [List.append_assoc] at hsource
        obtain rfl := hblanks.eq_nil_of_append hsource hfirst
        cases selfClosing
        · cases hsource
          exact .inr (.inl ⟨rfl, rfl⟩)
        · cases hsource
          exact .inl ⟨rfl, rfl, rfl⟩
    | @cons a attributes blanks source more hblanks hspelled htail =>
        rw [List.append_assoc] at hsource
        obtain rfl := hblanks.eq_nil_of_append hsource hfirst
        rw [List.nil_append, List.append_assoc] at hsource
        refine .inr (.inr ⟨a, source, more ++ behind, hspelled, hrest.trans hsource, ?_⟩)
        refine ⟨attributes, selfClosing, more, behind, rfl, htail, ?_⟩
        simp [Nat.add_assoc]
  · have hnil : Text.AllBlank [] := by simp [Text.AllBlank]
    rintro (⟨rfl, hr, rfl⟩ | ⟨rfl, rfl⟩ | ⟨a, source, left, hspelled, hsource, hcontinues⟩)
    · obtain ⟨u, rfl⟩ := List.head?_eq_some_iff.mp hr
      exact ⟨[], true, _, u, hrest, .mark hnil, rfl⟩
    · exact ⟨[], false, _, r, hrest, .mark hnil, rfl⟩
    · obtain ⟨attributes, selfClosing, more, behind, rfl, htail, rfl⟩ := hcontinues
      refine ⟨a :: attributes, selfClosing, _, behind, ?_, .cons hnil hspelled htail, ?_⟩
      · rw [hsource]
        simp
      · simp [Nat.add_assoc]

theorem advance_word {first : Char} {r : Text} (hrest : c.rest = first :: r) (p : Char → Bool) :
    c.advance (first :: r.takeWhile p).length =
      ⟨c.offset + (first :: r.takeWhile p).length, r.dropWhile p⟩ := by
  have hone : (c.advance 1).rest = r.takeWhile p ++ r.dropWhile p := by
    rw [Cursor.advance, hrest, List.takeWhile_append_dropWhile]
    rfl
  rw [Cursor.advance_length_cons_takeWhile hrest, skipWhile_of_append hone
    (fun _ hd => List.mem_takeWhile_imp hd) fun _ hd => Text.head?_dropWhile_eq_false hd]
  simp [Cursor.advance, Nat.add_assoc, Nat.add_comm 1]

theorem exists_spelled_iff {first : Char} {r : Text} (hrest : c.rest = first :: r) :
    (∃ a source left, Attribute.Spelled a source left ∧ c.rest = source ++ left ∧
        Continues name (Attribute.bindTo props a) ⟨c.offset + source.length, left⟩ tag) ↔
      isAttributeStart first = true ∧
        ContinuesBehind name props (first :: r.takeWhile isAttributeChar)
          ((c.advance
            (first :: r.takeWhile isAttributeChar).length).skipWhile Text.isBlank) tag := by
  rw [continuesBehind_iff, advance_word hrest]
  constructor
  · rintro ⟨a, source, left, hspelled, hsource, hcontinues⟩
    cases hspelled with
    | @named attrName assignment _ content hword hassignment =>
        obtain ⟨first', r', hcons, hstart, hname, hbehind⟩ := hword.exists_cons
        rw [hrest, List.append_assoc, hcons] at hsource
        cases hsource
        refine ⟨hstart, content, assignment, left, hassignment, hbehind.symm, ?_⟩
        rw [List.length_append, ← Nat.add_assoc] at hcontinues
        rw [← hname]
        exact hcontinues
  · rintro ⟨hstart, content, assignment, left, hassignment, hbehind, hcontinues⟩
    have hword : Text.IsWord isAttributeStart isAttributeChar _ _ := Text.isWord_takeWhile hstart r
    have hbehind : r.dropWhile isAttributeChar = assignment ++ left := hbehind
    rw [hbehind] at hword
    refine ⟨_, _, left, .named hword hassignment, ?_, ?_⟩
    · rw [hrest, List.append_assoc, ← hbehind, List.cons_append, List.takeWhile_append_dropWhile]
    · rw [List.length_append, ← Nat.add_assoc]
      exact hcontinues

theorem not_continues_equals (h : c.rest.head? = some '=') : ¬ Continues name props c tag := by
  obtain ⟨r, hrest⟩ := List.head?_eq_some_iff.mp h
  rw [continues_cons_iff hrest (by decide), exists_spelled_iff hrest]
  rintro (⟨hslash, -⟩ | ⟨hgreater, -⟩ | ⟨hstart, -⟩)
  · exact absurd hslash (by decide)
  · exact absurd hgreater (by decide)
  · exact absurd hstart (by decide)

/-- What is read behind the name of an attribute is what is spelled there, if that holds of what is
read further on. -/
theorem scanBehind_eq_some_iff {attrName : Text} {behind : Cursor}
    (ih : ∀ (props : Entries Text) (next : Cursor), next.rest.length ≤ behind.rest.length →
      ((scanAttributes name props next).1 = some tag ↔ Continues name props next tag)) :
    scanBehind name props attrName behind = some tag ↔
      ContinuesBehind name props attrName behind tag := by
  rw [scanBehind, ContinuesBehind]
  split
  · next hequals =>
      have hskip := Cursor.length_rest_skipWhile_le Text.isBlank (behind.advance 1)
      have hadvance := Cursor.length_rest_advance behind 1
      cases hv : scanValue props attrName ((behind.advance 1).skipWhile Text.isBlank) with
      | error e => simp [not_continues_equals hequals, Except.toOption]
      | ok v =>
          have hlen := (length_scanValue hv).1
          have hnext := ih v.1 v.2 (by omega)
          simp [not_continues_equals hequals, hequals, Except.toOption, hnext]
  · next hequals => simp [hequals, ih props behind (Nat.le_refl _)]

/-- What is read at a place that is not blank begins with a mark or with an attribute, and each
beginning rules the other two out. -/
theorem scanHere_eq_some_iff {first : Char} {r : Text} :
    scanHere name props c first r = some tag ↔
      first = '/' ∧ r.head? = some '>' ∧ tag = ⟨name, props, c.offset + 2, true⟩ ∨
      first = '>' ∧ tag = ⟨name, props, c.offset + 1, false⟩ ∨
      isAttributeStart first = true ∧
        scanBehind name props (first :: r.takeWhile isAttributeChar)
          ((c.advance (first :: r.takeWhile isAttributeChar).length).skipWhile Text.isBlank) =
            some tag := by
  rw [scanHere]
  split
  · next hclose =>
      obtain ⟨rfl, hr⟩ := hclose
      constructor
      · rintro ⟨rfl⟩
        exact .inl ⟨rfl, hr, rfl⟩
      · rintro (⟨-, -, rfl⟩ | ⟨hgreater, -⟩ | ⟨hstart, -⟩)
        · rfl
        · exact absurd hgreater (by decide)
        · exact absurd hstart (by decide)
  · next hopen =>
      split
      · next hclose =>
          subst hclose
          constructor
          · rintro ⟨rfl⟩
            exact .inr (.inl ⟨rfl, rfl⟩)
          · rintro (⟨hslash, -⟩ | ⟨-, rfl⟩ | ⟨hstart, -⟩)
            · exact absurd hslash (by decide)
            · rfl
            · exact absurd hstart (by decide)
      · next hmore =>
          have hslash : ¬ (first = '/' ∧ r.head? = some '>' ∧
              tag = ⟨name, props, c.offset + 2, true⟩) := fun h => hopen ⟨h.1, h.2.1⟩
          have hgreater : ¬ (first = '>' ∧ tag = ⟨name, props, c.offset + 1, false⟩) :=
            fun h => hmore h.1
          rw [or_iff_right hslash, or_iff_right hgreater]
          split
          · next hstart => exact (and_iff_right hstart).symm
          · next hstart =>
              constructor
              · intro h
                cases h
              · exact fun h => absurd h.1 hstart

/-- The attributes and the mark that are read are those that are spelled. -/
theorem scanAttributes_eq_some_iff :
    (scanAttributes name props c).1 = some tag ↔ Continues name props c tag := by
  induction hlen : c.rest.length using Nat.strongRecOn generalizing c props with
  | ind l ih =>
      rw [← continues_skipWhile_iff]
      cases hrest : (c.skipWhile Text.isBlank).rest with
      | nil => simp [scanAttributes_nil name props hrest, not_continues_nil hrest]
      | cons first r =>
          have hfirst : Text.isBlank first = false := by
            refine Text.head?_dropWhile_eq_false (t := c.rest) ?_
            rw [← Cursor.rest_skipWhile, hrest]
            rfl
          have hbehind := hlen ▸ length_behind_lt hrest (r.takeWhile isAttributeChar)
          have hbehind :
              scanBehind name props (first :: r.takeWhile isAttributeChar) _ = some tag ↔ _ :=
            scanBehind_eq_some_iff fun props next hle => ih _ (Nat.lt_of_le_of_lt hle hbehind) rfl
          rw [fst_scanAttributes_cons name props hrest, scanHere_eq_some_iff, hbehind,
            continues_cons_iff hrest hfirst, exists_spelled_iff hrest]

/-- A tag is found at a place exactly if it is spelled there. -/
theorem scanAt_eq_some_iff :
    (scanAt c).1 = some tag ↔
      ∃ attributes source behind, c.rest = source ++ behind ∧
        Spelled attributes tag.selfClosing behind tag.name source ∧
        tag.stop = c.offset + source.length ∧ Holds attributes tag.props := by
  simp only [holds_iff]
  constructor
  · intro h
    obtain ⟨first, r, hrest⟩ := exists_cons_of_scanAt h
    rw [scanAt_cons_cons hrest] at h
    split at h
    · next hname =>
        have hone : (c.advance 1).rest = first :: r := by
          rw [Cursor.advance, hrest]
          rfl
        rw [advance_word hone] at h
        obtain ⟨attributes, selfClosing, tail, behind, hcut, htail, rfl⟩ :=
          scanAttributes_eq_some_iff.mp h
        have hcut : r.dropWhile Text.isWordChar = tail ++ behind := hcut
        have hword : Text.IsWord isNameStart Text.isWordChar _ _ :=
          Text.isWord_takeWhile (by simpa [isNameStart] using hname) r
        rw [hcut] at hword
        refine ⟨attributes, _, behind, ?_, .tag hword htail, ?_, rfl⟩
        · rw [hrest, List.cons_append, List.append_assoc, ← hcut, List.cons_append,
            List.takeWhile_append_dropWhile]
        · simp only [Cursor.advance, List.length_cons, List.length_append]
          omega
    · cases h
  · rintro ⟨attributes, source, behind, hrest, hspelled, hstop, hprops⟩
    obtain ⟨name, props, stop, selfClosing⟩ := tag
    cases hspelled with
    | @tag tail hword htail =>
        obtain ⟨first, r, hcons, hname, hlong, hcut⟩ := hword.exists_cons
        rw [List.cons_append, List.append_assoc, hcons] at hrest
        have hone : (c.advance 1).rest = first :: r := by
          rw [Cursor.advance, hrest]
          rfl
        rw [scanAt_cons_cons hrest, if_pos (by simpa [isNameStart] using hname), advance_word hone,
          scanAttributes_eq_some_iff]
        refine ⟨attributes, selfClosing, tail, behind, hcut.symm, htail, ?_⟩
        rw [← hlong, mk.injEq]
        refine ⟨rfl, hprops, ?_, rfl⟩
        have hstop : stop = c.offset + ('<' :: (name ++ tail)).length := hstop
        simp only [hstop, Cursor.advance, List.length_cons, List.length_append]
        omega

/-- A scan finds a tag exactly where one is spelled, and it tells the name, the mark, the end and
the bound attributes that are spelled there.  Found or not, what is kept as text of a tag at a
place of the template is not empty and does not reach past the template. -/
theorem scan_eq_some_iff (t : Text) (offset : Nat) :
    (∀ tag : Tag, (scan t offset).1 = some tag ↔
      ∃ attributes source behind, t.drop offset = source ++ behind ∧
        Spelled attributes tag.selfClosing behind tag.name source ∧
        tag.stop = offset + source.length ∧ Holds attributes tag.props) ∧
    (offset < t.length →
      offset < brokenEnd (Cursor.ofOffset t offset) ∧
        brokenEnd (Cursor.ofOffset t offset) ≤ t.length) := by
  refine ⟨fun tag => scanAt_eq_some_iff, ?_⟩
  intro hlt
  have hrest : (Cursor.ofOffset t offset).rest ≠ [] := by
    rw [Cursor.ofOffset, ne_eq, List.drop_eq_nil_iff]
    omega
  have hle := brokenEnd_le_limit hrest
  have hlimit : (Cursor.ofOffset t offset).limit = offset + (t.length - offset) := by
    rw [Cursor.limit, Cursor.ofOffset, List.length_drop]
  exact ⟨offset_lt_brokenEnd (Cursor.ofOffset t offset), by omega⟩

/-- Marks in braces and quotes, a name bound three times, once to nothing, and one that is not
bound. -/
theorem scan_eq_some_iff_card :
    let t := text "x<Card a = \x7bn\x7d b='/>' c=\x7b>\x7da=\x7bf(\x7b\x7d)\x7d a=\x7b \x7d d/>y"
    let tag : Tag := ⟨text "Card", [(text "a", text "f(\x7b\x7d)"), (text "c", text ">")], 46, true⟩
    (scan t 1).1 = some tag ∧ 1 < t.length ∧
      (∃ attributes source behind, t.drop 1 = source ++ behind ∧
        Spelled attributes true behind (text "Card") source ∧ 46 = 1 + source.length ∧
        Holds attributes tag.props) ∧
      1 < brokenEnd (Cursor.ofOffset t 1) ∧ brokenEnd (Cursor.ofOffset t 1) ≤ t.length := by
  intro t tag
  have hscan : (scan t 1).1 = some tag := by decide +kernel
  have hlt : 1 < t.length := by decide +kernel
  obtain ⟨hfound, hkept⟩ := scan_eq_some_iff t 1
  exact ⟨hscan, hlt, (hfound tag).mp hscan, hkept hlt⟩

end Tag

end InverseTemplate
