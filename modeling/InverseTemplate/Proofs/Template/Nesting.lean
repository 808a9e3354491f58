/-
# Components inside components

The body of a block component is text, with tags of the same name in between: self-closing ones,
and opening ones that have a body and a closing tag of their own.  `Block.Body` is this grammar.
What the text of a body must not hold is a mention of the name: the tags of other components, the
name in a longer one, and whatever stands in the braces and quotes of a nested tag, are free.

A component ends at the closing tag behind its body (`Block.componentAt?_of_body`).  The search
for it counts open blocks, and it passes over a body without a change of the count
(`Block.closingTag?_append_body`): this is the induction over the nesting, at any count and in
front of any text that begins with a tag.  A tag is passed as a whole.  It is found in the text as
it is on its own, since it holds the mark that ends it.
-/
import InverseTemplate.Proofs.Template.Isolated
import InverseTemplate.Proofs.Template.Spelling

namespace InverseTemplate

/-! ## Bodies -/

namespace Block

/-- A character that ends the mention of a name. -/
def endsName (c : Char) : Bool := Text.isBlank c || c = '/' || c = '>'

/-- A text that mentions the name in no opening and no closing tag. -/
def Plain (name t : Text) : Prop :=
  ∀ c, endsName c = true →
    ¬ '<' :: (name ++ [c]) <:+: t ∧ ¬ '<' :: '/' :: (name ++ [c]) <:+: t

/-- A text that is one tag with the given name, and nothing else. -/
def IsTag (name : Text) (selfClosing : Bool) (source : Text) : Prop :=
  ∃ tag, (Tag.scan source 0).1 = some tag ∧ tag.stop = source.length ∧ tag.name = name ∧
    tag.selfClosing = selfClosing

/-- The closing tag of a name. -/
def closingTag (name : Text) : Text := '<' :: '/' :: (name ++ ['>'])

/-- What may stand between the tags of a block component: one text, or a text and then a nested tag,
with its own body and closing tag unless it is self-closing, and then the rest. -/
inductive Body (name : Text) : Text → Prop
  | plain {t : Text} : Plain name t → Body name t
  | selfClosing {t source rest : Text} : Plain name t → IsTag name true source → Body name rest →
      Body name (t ++ (source ++ rest))
  | block {t opening inner rest : Text} :
      Plain name t → IsTag name false opening → Body name inner →
      Body name rest → Body name (t ++ (opening ++ (inner ++ (closingTag name ++ rest))))

/-! ## Mentions -/

theorem mentions_iff {mark name t : Text} :
    mentions mark name t = true ↔ ∃ c, endsName c = true ∧ mark ++ (name ++ [c]) <+: t := by
  have hassoc : ∀ c, mark ++ (name ++ [c]) = mark ++ name ++ [c] := by simp
  simp only [hassoc]
  generalize hword : mark ++ name = word
  rw [mentions, hword, Bool.and_eq_true, List.isPrefixOf_iff_prefix]
  constructor
  · rintro ⟨⟨u, rfl⟩, hends⟩
    rw [List.drop_left] at hends
    cases u with
    | nil => simp at hends
    | cons c r =>
        refine ⟨c, by simpa [endsName] using hends, r, by simp⟩
  · rintro ⟨c, hc, u, rfl⟩
    refine ⟨⟨c :: u, by simp⟩, ?_⟩
    rw [List.append_assoc, List.drop_left]
    simpa [endsName] using hc

theorem Plain.of_suffix {name a b : Text} (h : Plain name b) (hsuffix : a <:+ b) :
    Plain name a := by
  intro c hc
  exact ⟨fun hin => (h c hc).1 (hin.trans hsuffix.isInfix),
    fun hin => (h c hc).2 (hin.trans hsuffix.isInfix)⟩

theorem plain_cons_iff {name r : Text} {c : Char} :
    Plain name (c :: r) ↔
      (mentions ['<'] name (c :: r) = false ∧ mentions ['<', '/'] name (c :: r) = false) ∧
        Plain name r := by
  simp only [← Bool.not_eq_true, mentions_iff]
  constructor
  · intro h
    refine ⟨⟨?_, ?_⟩, h.of_suffix (List.suffix_cons c r)⟩
    · rintro ⟨d, hd, hprefix⟩
      exact (h d hd).1 hprefix.isInfix
    · rintro ⟨d, hd, hprefix⟩
      exact (h d hd).2 hprefix.isInfix
  · rintro ⟨⟨hopening, hclosing⟩, hr⟩ d hd
    constructor
    · intro hin
      rcases List.infix_cons_iff.mp hin with hprefix | hin
      · exact hopening ⟨d, hd, hprefix⟩
      · exact (hr d hd).1 hin
    · intro hin
      rcases List.infix_cons_iff.mp hin with hprefix | hin
      · exact hclosing ⟨d, hd, hprefix⟩
      · exact (hr d hd).2 hin

theorem plain_nil (name : Text) : Plain name [] := by
  intro c hc
  exact ⟨by simp, by simp⟩

instance decidablePlain (name : Text) : (t : Text) → Decidable (Plain name t)
  | [] => .isTrue (plain_nil name)
  | _ :: r =>
      have := decidablePlain name r
      decidable_of_iff _ plain_cons_iff.symm

/-- What begins in front of a tag and holds no less-than sign behind its first character ends in
front of the tag. -/
theorem cons_prefix_of_prefix_append {p a b : Text} {d : Char} (h : d :: p <+: a ++ b) (ha : a ≠ [])
    (hp : '<' ∉ p) (hb : b.head? = some '<') : d :: p <+: a := by
  cases a with
  | nil => exact absurd rfl ha
  | cons f a =>
      obtain ⟨rfl, hrest⟩ := List.cons_prefix_cons.mp h
      refine List.cons_prefix_cons.mpr ⟨rfl, Text.prefix_of_prefix_append hrest ?_⟩
      intro c hc
      rw [← Option.some.inj (hb.symm.trans hc)]
      exact hp

/-- Neither a tag of the name nor a closing one begins in a text that mentions the name in none,
if a tag follows it. -/
theorem Plain.mentions_append {name a b : Text} (h : Plain name a) (ha : a ≠ [])
    (hname : '<' ∉ name)
    (hb : b.head? = some '<') :
    mentions ['<', '/'] name (a ++ b) = false ∧ mentions ['<'] name (a ++ b) = false := by
  have hword : ∀ c, endsName c = true → '<' ∉ name ++ [c] := by
    intro c hc hmem
    rcases List.mem_append.mp hmem with hmem | hmem
    · exact hname hmem
    · rw [← List.mem_singleton.mp hmem] at hc
      exact absurd hc (by decide)
  simp only [← Bool.not_eq_true, mentions_iff]
  constructor
  · rintro ⟨c, hc, hprefix⟩
    refine (h c hc).2 (cons_prefix_of_prefix_append hprefix ha ?_ hb).isInfix
    simpa using hword c hc
  · rintro ⟨c, hc, hprefix⟩
    exact (h c hc).1 (cons_prefix_of_prefix_append hprefix ha (hword c hc) hb).isInfix

/-! ## Tags in front of a text -/

theorem scanAt_append {source : Text} {tag : Tag} (h : (Tag.scan source 0).1 = some tag)
    (hstop : tag.stop = source.length) (offset : Nat) (rest : Text) :
    (Tag.scanAt ⟨offset, source ++ rest⟩).1 = some { tag with stop := offset + source.length } := by
  let c : Cursor := ⟨offset, source ++ rest⟩
  have hplace : c.excerpt offset (offset + source.length) = Cursor.ofOffset source 0 := by
    simp [c, Cursor.excerpt, Cursor.ofOffset]
  have hexcerpt : (Tag.scanAt (c.excerpt offset (offset + source.length))).1 = _ :=
    Tag.scanAt_excerpt (Nat.le_refl offset)
  rw [hplace, show (Tag.scanAt (Cursor.ofOffset source 0)).1 = some tag from h, eq_comm,
    Option.bind_eq_some_iff] at hexcerpt
  obtain ⟨found, hfound, htag⟩ := hexcerpt
  have hbehind : offset < found.stop := Tag.offset_lt_stop_of_scanAt hfound
  rw [Tag.excerpt?] at htag
  split at htag
  · cases htag
    have hstop : found.stop - offset = source.length := hstop
    rw [hfound, ← hstop, Nat.add_sub_cancel' (Nat.le_of_lt hbehind)]
  · cases htag

section

variable {name source : Text} {selfClosing : Bool}

theorem IsTag.exists_cons (h : IsTag name selfClosing source) :
    ∃ c r, source = '<' :: (name ++ c :: r) ∧ endsName c = true ∧
      Text.IsWord Tag.isNameStart Text.isWordChar name (c :: r) := by
  obtain ⟨tag, hscan, hstop, rfl, rfl⟩ := h
  obtain ⟨attributes, spelled, behind, hcut, hspelled, hstop', -⟩ := Tag.scanAt_eq_some_iff.mp hscan
  have hcut : source = spelled ++ behind := hcut
  have hnil : behind = [] := by
    have hlen := congrArg List.length hcut
    have hzero : (Cursor.ofOffset source 0).offset = 0 := rfl
    rw [List.length_append] at hlen
    exact List.eq_nil_of_length_eq_zero (by omega)
  subst hnil
  rw [List.append_nil] at hcut
  subst hcut
  cases hspelled with
  | tag hword htail =>
      obtain ⟨c, r, rfl, hc⟩ := htail.head_of_isWord hword
      rw [List.append_nil] at hword
      exact ⟨c, r, rfl, by simpa [endsName, or_assoc] using hc, hword⟩

theorem IsTag.not_mem_name (h : IsTag name selfClosing source) : '<' ∉ name := by
  obtain ⟨_, _, -, -, ⟨first, more, rfl, hfirst, hmore⟩, -⟩ := h.exists_cons
  intro hmem
  rcases List.mem_cons.mp hmem with rfl | hmem
  · exact absurd hfirst (by decide)
  · exact absurd (hmore _ hmem) (by decide)

theorem IsTag.head?_append (h : IsTag name selfClosing source) (rest : Text) :
    (source ++ rest).head? = some '<' := by
  obtain ⟨_, _, rfl, -⟩ := h.exists_cons
  rfl

theorem IsTag.mentions_append (h : IsTag name selfClosing source) (rest : Text) :
    mentions ['<', '/'] name (source ++ rest) = false ∧
      mentions ['<'] name (source ++ rest) = true := by
  obtain ⟨c, r, rfl, hc, ⟨first, more, rfl, hfirst, hmore⟩, -⟩ := h.exists_cons
  rw [← Bool.not_eq_true, mentions_iff, mentions_iff]
  refine ⟨?_, c, hc, r ++ rest, by simp⟩
  rintro ⟨d, -, hprefix⟩
  simp only [List.cons_append, List.nil_append, List.cons_prefix_cons, true_and] at hprefix
  rw [← hprefix.1] at hfirst
  exact absurd hfirst (by decide)

/-! ## The search for the closing tag -/

variable {depth offset : Nat} {rest : Text}

theorem closingTag?_append_plain {t : Text} (h : Plain name t) (hname : '<' ∉ name)
    (hrest : rest.head? = some '<') :
    closingTag? name depth ⟨offset, t ++ rest⟩ =
      closingTag? name depth ⟨offset + t.length, rest⟩ := by
  induction t generalizing offset with
  | nil => rfl
  | cons c r ih =>
      obtain ⟨hclosing, hopening⟩ := h.mentions_append (List.cons_ne_nil c r) hname hrest
      rw [closingTag?_cons (List.cons_ne_nil c (r ++ rest))]
      simp only [List.cons_append] at hclosing hopening
      simp only [List.cons_append, hclosing, hopening, Bool.false_eq_true, if_false]
      have hadvance : Cursor.advance ⟨offset, c :: (r ++ rest)⟩ 1 = ⟨offset + 1, r ++ rest⟩ := rfl
      rw [hadvance, ih (h.of_suffix (List.suffix_cons c r)), List.length_cons, Nat.add_assoc,
        Nat.add_comm 1]

theorem closingTag?_append_isTag (h : IsTag name selfClosing source) :
    closingTag? name depth ⟨offset, source ++ rest⟩ =
      closingTag? name (if selfClosing then depth else depth + 1)
        ⟨offset + source.length, rest⟩ := by
  obtain ⟨hclosing, hopening⟩ := h.mentions_append rest
  obtain ⟨c, r, hcons, -⟩ := h.exists_cons
  obtain ⟨tag, hscan, hstop, -, rfl⟩ := h
  have hadvance : Cursor.advance ⟨offset, source ++ rest⟩ source.length =
      ⟨offset + source.length, rest⟩ := by
    rw [Cursor.advance, List.drop_left]
  rw [closingTag?_cons (by simp [hcons])]
  simp only [hclosing, hopening, Bool.false_eq_true, if_false, if_true,
    scanAt_append hscan hstop offset rest, Nat.add_sub_cancel_left, hadvance]

theorem closingTag?_append_closingTag :
    closingTag? name depth ⟨offset, closingTag name ++ rest⟩ =
      match depth with
      | 0 => some ⟨offset, offset + (closingTag name).length⟩
      | outer + 1 => closingTag? name outer ⟨offset + (closingTag name).length, rest⟩ := by
  have hmentions : mentions ['<', '/'] name (closingTag name ++ rest) = true :=
    mentions_iff.mpr ⟨'>', by decide, rest, by simp [closingTag]⟩
  have hinner : Cursor.advance ⟨offset, closingTag name ++ rest⟩ (name.length + 2) =
      ⟨offset + (name.length + 2), '>' :: rest⟩ := by
    have hsplit : closingTag name ++ rest = '<' :: '/' :: name ++ '>' :: rest := by
      simp [closingTag]
    rw [Cursor.advance, hsplit]
    congr 1
    exact List.drop_left' (by simp)
  have hlen : (closingTag name).length = name.length + 2 + 1 := by simp [closingTag]
  rw [closingTag?_cons (by simp [closingTag])]
  simp only [hmentions, if_true, hinner, hlen]
  rfl

/-- A body is passed over without a change of the count. -/
theorem closingTag?_append_body {body : Text} (h : Body name body) (hname : '<' ∉ name)
    (hrest : rest.head? = some '<') :
    closingTag? name depth ⟨offset, body ++ rest⟩ =
      closingTag? name depth ⟨offset + body.length, rest⟩ := by
  induction h generalizing depth offset rest with
  | plain hplain => exact closingTag?_append_plain hplain hname hrest
  | selfClosing hplain htag _ ih =>
      rw [List.append_assoc, List.append_assoc,
        closingTag?_append_plain hplain hname (htag.head?_append _), closingTag?_append_isTag htag,
        if_pos rfl, ih hrest]
      simp only [List.length_append, Nat.add_assoc]
  | block hplain htag _ _ ihinner ihrest =>
      rw [List.append_assoc, List.append_assoc, List.append_assoc, List.append_assoc,
        closingTag?_append_plain hplain hname (htag.head?_append _), closingTag?_append_isTag htag,
        ihinner (by rfl), closingTag?_append_closingTag]
      simp only [Bool.false_eq_true, if_false]
      rw [ihrest hrest]
      simp only [List.length_append, Nat.add_assoc]

end

/-! ## Components -/

/-- A block component ends behind the closing tag that follows its body, and its children are the
body, for any body and any text behind the closing tag. -/
theorem componentAt?_of_body {opening body : Text} {tag : Tag}
    (htag : (Tag.scan opening 0).1 = some tag) (hstop : tag.stop = opening.length)
    (hopen : tag.selfClosing = false) (hbody : Body tag.name body) (offset : Nat) (behind : Text) :
    componentAt? ⟨offset, opening ++ (body ++ (closingTag tag.name ++ behind))⟩ =
      some
        { content := .component tag.name tag.props (some body)
          raw := opening ++ (body ++ closingTag tag.name)
          start := offset
          stop := offset + (opening ++ (body ++ closingTag tag.name)).length } := by
  have hname : '<' ∉ tag.name := IsTag.not_mem_name ⟨tag, htag, hstop, rfl, rfl⟩
  have hadvance : Cursor.advance ⟨offset, opening ++ (body ++ (closingTag tag.name ++ behind))⟩
      opening.length = ⟨offset + opening.length, body ++ (closingTag tag.name ++ behind)⟩ := by
    rw [Cursor.advance, List.drop_left]
  have hclosing : closingTag? tag.name 0
      ⟨offset + opening.length, body ++ (closingTag tag.name ++ behind)⟩ =
        some ⟨offset + opening.length + body.length,
          offset + opening.length + body.length + (closingTag tag.name).length⟩ := by
    rw [closingTag?_append_body hbody hname rfl, closingTag?_append_closingTag]
  rw [componentAt?, scanAt_append htag hstop]
  simp only [hopen, Bool.false_eq_true, if_false, Nat.add_sub_cancel_left, hadvance, hclosing,
    Option.map_some, List.take_left, Option.some.injEq, Slot.mk.injEq, true_and]
  have hwhole : opening ++ (body ++ (closingTag tag.name ++ behind)) =
      opening ++ (body ++ closingTag tag.name) ++ behind := by simp
  have hlen : offset + opening.length + body.length + (closingTag tag.name).length - offset =
      (opening ++ (body ++ closingTag tag.name)).length := by
    simp only [List.length_append]
    omega
  refine ⟨?_, by simp only [List.length_append, Nat.add_assoc]⟩
  rw [hwhole, hlen, List.take_left]

/-- A body with a longer name, a self-closing tag that holds a closing one, and a nested block. -/
theorem componentAt?_of_body_nested :
    let opening := text "<A b=\x7b\"</A>\"\x7d>"
    let body := text "x<Ab> <A c='</A>'/>y<A\n>z</A></Ab>"
    let tag : Tag := ⟨text "A", [(text "b", text "\"</A>\"")], 14, false⟩
    (Tag.scan opening 0).1 = some tag ∧ tag.stop = opening.length ∧ tag.selfClosing = false ∧
      Body tag.name body ∧
      componentAt? ⟨3, opening ++ (body ++ (closingTag tag.name ++ text "</A>"))⟩ =
        some
          { content := .component tag.name tag.props (some body)
            raw := opening ++ (body ++ closingTag tag.name)
            start := 3
            stop := 3 + (opening ++ (body ++ closingTag tag.name)).length } := by
  intro opening body tag
  have htag : (Tag.scan opening 0).1 = some tag := by decide +kernel
  have hstop : tag.stop = opening.length := by decide +kernel
  have hcard : IsTag tag.name true (text "<A c='</A>'/>") :=
    ⟨⟨text "A", [], 13, true⟩, by decide +kernel, by decide +kernel, rfl, rfl⟩
  have hinner : IsTag tag.name false (text "<A\n>") :=
    ⟨⟨text "A", [], 4, false⟩, by decide +kernel, by decide +kernel, rfl, rfl⟩
  have hbody : Body tag.name body :=
    .selfClosing (t := text "x<Ab> ") (by decide +kernel) hcard
      (.block (t := text "y") (by decide +kernel) hinner
        (.plain (t := text "z") (by decide +kernel))
        (.plain (t := text "</Ab>") (by decide +kernel)))
  exact ⟨htag, hstop, rfl, hbody, componentAt?_of_body htag hstop rfl hbody 3 (text "</A>")⟩

end Block

end InverseTemplate
