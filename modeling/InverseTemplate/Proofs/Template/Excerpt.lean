/-
# Reading an excerpt

An excerpt is what stands in a text between two offsets, read as a text of its own.  A scanner
that looks ahead may see less in an excerpt than in the text, so it may fail where it succeeded
before, but only if what it found reaches past the end of the excerpt.

For an opening tag this is an equation (`Tag.scanAt_excerpt`): in the excerpt there is the same
tag, if it ends in it, and otherwise none.  So a tag that is malformed in the text is malformed in
the excerpt too.  The parts of a tag have equations of the same form, from the inside out: a group
of braces, a value, an attribute and what follows it.

The scanners are defined with the proofs of their own termination inside; the first section restates
one step of each without them.
-/
import InverseTemplate.Template.Tag

namespace InverseTemplate

/-! ## One step of a scan -/

namespace Tag

theorem scanAttributes_nil (name : Text) (props : Entries Text) {c : Cursor}
    (h : (c.skipWhile Text.isBlank).rest = []) : (scanAttributes name props c).1 = none := by
  rw [scanAttributes]
  split
  · rfl
  · next hrest =>
      rw [h] at hrest
      cases hrest

/-- The tag that is found behind the name of an attribute: behind its equals sign and its value, or,
if it is bare, behind its name. -/
def scanBehind (name : Text) (props : Entries Text) (attrName : Text) (behind : Cursor) :
    Option Tag :=
  if behind.rest.head? = some '=' then
    (scanValue props attrName ((behind.advance 1).skipWhile Text.isBlank)).toOption.bind
      fun v => (scanAttributes name v.1 v.2).1
  else (scanAttributes name props behind).1

/-- The tag that is found at a place that is not blank: with one attribute more, or closed here.
Only what a scan finds is told, not how far it came. -/
def scanHere (name : Text) (props : Entries Text) (here : Cursor) (first : Char) (r : Text) :
    Option Tag :=
  let attrName := first :: r.takeWhile isAttributeChar
  if first = '/' ∧ r.head? = some '>' then some ⟨name, props, here.offset + 2, true⟩
  else if first = '>' then some ⟨name, props, here.offset + 1, false⟩
  else if isAttributeStart first then
    scanBehind name props attrName ((here.advance attrName.length).skipWhile Text.isBlank)
  else none

theorem fst_scanAttributes_cons (name : Text) (props : Entries Text) {c : Cursor} {first : Char}
    {r : Text} (h : (c.skipWhile Text.isBlank).rest = first :: r) :
    (scanAttributes name props c).1 =
      scanHere name props (c.skipWhile Text.isBlank) first r := by
  rw [scanAttributes]
  split
  · next hrest =>
      rw [h] at hrest
      cases hrest
  · next first' r' hrest =>
      rw [h] at hrest
      cases hrest
      rw [scanHere]
      dsimp only
      split
      · rfl
      · split
        · rfl
        · split
          · rw [scanBehind]
            split
            · split
              · next hv =>
                  rw [hv]
                  rfl
              · next hv =>
                  rw [hv]
                  rfl
            · rfl
          · rfl

end Tag

/-! ## Places of an excerpt -/

variable {base stop : Nat} {c : Cursor}

namespace Cursor

/-- The same place in the excerpt of the text from `base` up to `stop`. -/
def excerpt (base stop : Nat) (c : Cursor) : Cursor :=
  ⟨c.offset - base, c.rest.take (stop - c.offset)⟩

theorem rest_excerpt_eq_nil (h : stop ≤ c.offset) : (c.excerpt base stop).rest = [] := by
  show c.rest.take (stop - c.offset) = []
  rw [Nat.sub_eq_zero_of_le h, List.take_zero]

theorem rest_excerpt_cons {first : Char} {r : Text} (hrest : c.rest = first :: r)
    (h : c.offset < stop) :
    (c.excerpt base stop).rest = first :: r.take (stop - (c.offset + 1)) := by
  show c.rest.take (stop - c.offset) = _
  rw [hrest, show stop - c.offset = (stop - (c.offset + 1)) + 1 by omega, List.take_succ_cons]

theorem advance_excerpt (hbase : base ≤ c.offset) (n : Nat) :
    (c.excerpt base stop).advance n = (c.advance n).excerpt base stop := by
  simp only [excerpt, advance, List.drop_take, mk.injEq]
  exact ⟨by omega, by rw [Nat.sub_add_eq]⟩

theorem skipWhile_excerpt (stop : Nat) (hbase : base ≤ c.offset) (p : Char → Bool) :
    (c.skipWhile p).offset < stop ∧
        (c.excerpt base stop).skipWhile p = (c.skipWhile p).excerpt base stop ∨
      stop ≤ (c.skipWhile p).offset ∧ ((c.excerpt base stop).skipWhile p).rest = [] := by
  have htake : (c.rest.take (stop - c.offset)).takeWhile p =
      (c.rest.takeWhile p).take (stop - c.offset) := List.take_takeWhile.symm
  have hoffset : (c.skipWhile p).offset = c.offset + (c.rest.takeWhile p).length := rfl
  rcases Nat.lt_or_ge (c.skipWhile p).offset stop with hlt | hge
  · refine .inl ⟨hlt, ?_⟩
    show (c.excerpt base stop).advance ((c.rest.take (stop - c.offset)).takeWhile p).length = _
    rw [htake, List.take_of_length_le (by omega), advance_excerpt hbase]
    rfl
  · refine .inr ⟨hge, ?_⟩
    show ((c.rest.take (stop - c.offset)).drop
      ((c.rest.take (stop - c.offset)).takeWhile p).length) = []
    have hlong : stop - c.offset ≤ (c.rest.takeWhile p).length := by omega
    rw [htake, List.length_take, Nat.min_eq_left hlong, List.drop_eq_nil_iff]
    exact List.length_take_le _ _

theorem rest_skipWhile_eq_nil (p : Char → Bool) (h : c.rest = []) : (c.skipWhile p).rest = [] := by
  rw [rest_skipWhile, h, List.dropWhile_nil]

theorem skipWhile_skipWhile (p : Char → Bool) (c : Cursor) :
    (c.skipWhile p).skipWhile p = c.skipWhile p := by
  have hnil : (c.skipWhile p).rest.takeWhile p = [] := by
    have hhead := List.head?_dropWhile_not p c.rest
    rw [rest_skipWhile]
    cases hrest : c.rest.dropWhile p with
    | nil => rfl
    | cons d r =>
        rw [hrest] at hhead
        exact List.takeWhile_cons_of_neg (by simpa using hhead)
  show (c.skipWhile p).advance ((c.skipWhile p).rest.takeWhile p).length = c.skipWhile p
  rw [hnil]
  rfl

theorem advance_length_cons_takeWhile {first : Char} {r : Text} (hrest : c.rest = first :: r)
    (p : Char → Bool) :
    c.advance (first :: r.takeWhile p).length = (c.advance 1).skipWhile p := by
  simp only [skipWhile, advance, hrest, List.length_cons, List.drop_succ_cons, List.drop_zero,
    mk.injEq, and_true]
  omega

theorem word_excerpt (hbase : base ≤ c.offset) {first : Char} {r : Text}
    (hrest : c.rest = first :: r) (hlt : c.offset < stop) (p : Char → Bool) :
    let within := r.take (stop - (c.offset + 1))
    let behind := c.advance (first :: r.takeWhile p).length
    let behind' := (c.excerpt base stop).advance (first :: within.takeWhile p).length
    behind.offset < stop ∧ within.takeWhile p = r.takeWhile p ∧
        behind' = behind.excerpt base stop ∨
      stop ≤ behind.offset ∧ behind'.rest = [] := by
  intro within behind behind'
  have hone : base ≤ (c.advance 1).offset := Nat.le_succ_of_le hbase
  have hbehind : behind = (c.advance 1).skipWhile p := advance_length_cons_takeWhile hrest p
  have hbehind' : behind' = ((c.advance 1).excerpt base stop).skipWhile p := by
    rw [← advance_excerpt hbase,
      ← advance_length_cons_takeWhile (rest_excerpt_cons hrest hlt)]
  rw [hbehind, hbehind']
  rcases skipWhile_excerpt stop hone p with ⟨hin, heq⟩ | hout
  · refine .inl ⟨hin, ?_, heq⟩
    have hoffset : ((c.advance 1).skipWhile p).offset =
        c.offset + 1 + (r.takeWhile p).length := by
      simp [skipWhile, advance, hrest]
    rw [show within.takeWhile p = (r.takeWhile p).take (stop - (c.offset + 1)) from
      List.take_takeWhile.symm]
    exact List.take_of_length_le (by omega)
  · exact .inr hout

end Cursor

/-! ## Tags -/

/-- In the beginning of a text a group closes where it closes in the text, if that is in it. -/
theorem braceLength?_take (depth : Nat) (t : Text) (k : Nat) :
    braceLength? depth (t.take k) = (braceLength? depth t).filter (· < k) := by
  have hmap : ∀ (o : Option Nat) (k : Nat),
      (o.filter (· < k)).map (· + 1) = (o.map (· + 1)).filter (· < k + 1) := by
    intro o k
    cases o with
    | none => rfl
    | some n => by_cases hn : n < k <;> simp [Option.filter, hn]
  have hzero : ∀ o : Option Nat, o.filter (· < 0) = none := by
    intro o
    cases o <;> rfl
  induction t generalizing depth k with
  | nil => simp [braceLength?]
  | cons c r ih =>
      cases k with
      | zero => rw [List.take_zero, braceLength?, hzero]
      | succ k =>
          rw [List.take_succ_cons]
          unfold braceLength?
          split
          · rw [ih, hmap]
          · split
            · cases depth with
              | zero => rfl
              | succ outer => exact (congrArg _ (ih outer k)).trans (hmap _ k)
            · rw [ih, hmap]

namespace Tag

/-- The tag in an excerpt, if it ends in it. -/
def excerpt? (base stop : Nat) (tag : Tag) : Option Tag :=
  if tag.stop ≤ stop then some { tag with stop := tag.stop - base } else none

theorem excerpt?_eq_none {tag : Tag} (h : stop < tag.stop) : tag.excerpt? base stop = none :=
  if_neg (by omega)

theorem bind_excerpt?_eq_none {name : Text} {props : Entries Text} (h : stop ≤ c.offset) :
    (scanAttributes name props c).1.bind (excerpt? base stop) = none := by
  rw [Option.bind_eq_none_iff]
  intro tag htag
  have := offset_lt_stop_of_scanAttributes htag
  exact excerpt?_eq_none (by omega)

/-- The attributes and the place behind a value, in an excerpt, if the value ends in it. -/
def valueExcerpt? (base stop : Nat) (v : Entries Text × Cursor) : Option (Entries Text × Cursor) :=
  if v.2.offset ≤ stop then some (v.1, v.2.excerpt base stop) else none

theorem offset_lt_of_scanValue {props : Entries Text} {attrName : Text}
    {v : Entries Text × Cursor} (h : scanValue props attrName c = .ok v) :
    c.offset < v.2.offset := by
  rw [scanValue] at h
  repeat' split at h
  all_goals cases h
  all_goals
    simp only [Cursor.advance]
    omega

theorem bind_valueExcerpt?_eq_none {props : Entries Text} {attrName : Text} (h : stop ≤ c.offset) :
    (scanValue props attrName c).toOption.bind (valueExcerpt? base stop) = none := by
  cases hv : scanValue props attrName c with
  | error e => rfl
  | ok v =>
      have := offset_lt_of_scanValue hv
      exact if_neg (by omega)

theorem toOption_scanValue_nil {props : Entries Text} {attrName : Text} (h : c.rest = []) :
    (scanValue props attrName c).toOption = none := by
  rw [scanValue, h]
  rfl

/-- A value is read in an excerpt as it is in the text, if it ends in the excerpt, and otherwise not
at all. -/
theorem toOption_scanValue_excerpt (hbase : base ≤ c.offset) (props : Entries Text)
    (attrName : Text) :
    (scanValue props attrName (c.excerpt base stop)).toOption =
      (scanValue props attrName c).toOption.bind (valueExcerpt? base stop) := by
  rcases Nat.lt_or_ge c.offset stop with hlt | hge
  · cases hrest : c.rest with
    | nil => simp [scanValue, Cursor.excerpt, hrest, Except.toOption]
    | cons first inner =>
        have hin : ∀ n, c.offset + (n + 2) ≤ stop ↔ n < stop - (c.offset + 1) := by omega
        have hadvance : ∀ n, (c.excerpt base stop).advance n = (c.advance n).excerpt base stop :=
          Cursor.advance_excerpt hbase
        rw [scanValue, scanValue, Cursor.rest_excerpt_cons hrest hlt, hrest]
        simp only
        split
        · rw [braceLength?_take]
          cases braceLength? 0 inner with
          | none => rfl
          | some n =>
              by_cases hn : n < stop - (c.offset + 1)
              · have htake : List.take n (inner.take (stop - (c.offset + 1))) = inner.take n := by
                  rw [List.take_take, Nat.min_eq_left (Nat.le_of_lt hn)]
                simp [Option.filter, hn, Except.toOption, valueExcerpt?, hin, htake, hadvance,
                  Cursor.offset_advance]
              · simp [Option.filter, hn, Except.toOption, valueExcerpt?, hin, Cursor.offset_advance]
        · split
          · rw [List.findIdx?_take]
            cases inner.findIdx? (· = first) with
            | none => rfl
            | some n =>
                by_cases hn : n < stop - (c.offset + 1)
                · simp [Option.guard, hn, Except.toOption, valueExcerpt?, hin, hadvance,
                    Cursor.offset_advance]
                · simp [Option.guard, hn, Except.toOption, valueExcerpt?, hin,
                    Cursor.offset_advance]
          · rfl
  · rw [toOption_scanValue_nil (Cursor.rest_excerpt_eq_nil hge), bind_valueExcerpt?_eq_none hge]

theorem toOption_scanValue_behind_excerpt {behind : Cursor} (hbase : base ≤ behind.offset)
    (props : Entries Text) (attrName : Text) :
    (scanValue props attrName
        (((behind.excerpt base stop).advance 1).skipWhile Text.isBlank)).toOption =
      (scanValue props attrName ((behind.advance 1).skipWhile Text.isBlank)).toOption.bind
        (valueExcerpt? base stop) := by
  have hone : base ≤ (behind.advance 1).offset := Nat.le_succ_of_le hbase
  rw [Cursor.advance_excerpt hbase]
  rcases Cursor.skipWhile_excerpt stop hone Text.isBlank with ⟨-, heq⟩ | ⟨hge, hnil⟩
  · rw [heq]
    exact toOption_scanValue_excerpt (Nat.le_trans hone (Nat.le_add_right _ _)) props attrName
  · rw [toOption_scanValue_nil hnil, bind_valueExcerpt?_eq_none hge]

theorem scanAttributes_skipWhile (name : Text) (props : Entries Text) (c : Cursor) :
    (scanAttributes name props (c.skipWhile Text.isBlank)).1 = (scanAttributes name props c).1 := by
  have hskip := Cursor.skipWhile_skipWhile Text.isBlank c
  cases hrest : (c.skipWhile Text.isBlank).rest with
  | nil =>
      rw [scanAttributes_nil name props hrest,
        scanAttributes_nil name props (by rw [hskip]; exact hrest)]
  | cons first r =>
      rw [fst_scanAttributes_cons name props hrest,
        fst_scanAttributes_cons name props (by rw [hskip]; exact hrest), hskip]

theorem behind_excerpt {here : Cursor} (hbase : base ≤ here.offset) {first : Char} {r : Text}
    (hrest : here.rest = first :: r) (hlt : here.offset < stop) :
    let within := r.take (stop - (here.offset + 1))
    let behind :=
      (here.advance (first :: r.takeWhile isAttributeChar).length).skipWhile Text.isBlank
    let behind' := ((here.excerpt base stop).advance
      (first :: within.takeWhile isAttributeChar).length).skipWhile Text.isBlank
    behind.offset < stop ∧ within.takeWhile isAttributeChar = r.takeWhile isAttributeChar ∧
        behind' = behind.excerpt base stop ∨
      stop ≤ behind.offset ∧ behind'.rest = [] := by
  intro within behind behind'
  rcases Cursor.word_excerpt hbase hrest hlt isAttributeChar with
    ⟨-, hword, heq⟩ | ⟨hname, hnil⟩
  · have hmid : base ≤ (here.advance (first :: r.takeWhile isAttributeChar).length).offset :=
      Nat.le_add_right_of_le hbase
    rcases Cursor.skipWhile_excerpt stop hmid Text.isBlank with
      ⟨hblank, heq'⟩ | ⟨hblank, hnil⟩
    · exact .inl ⟨hblank, hword, (congrArg _ heq).trans heq'⟩
    · exact .inr ⟨hblank,
        (congrArg (fun c => (Cursor.skipWhile Text.isBlank c).rest) heq).trans hnil⟩
  · exact .inr ⟨Nat.le_add_right_of_le hname, Cursor.rest_skipWhile_eq_nil _ hnil⟩

theorem length_behind_lt {first : Char} {r : Text}
    (hrest : (c.skipWhile Text.isBlank).rest = first :: r) (w : Text) :
    (((c.skipWhile Text.isBlank).advance (first :: w).length).skipWhile Text.isBlank).rest.length <
      c.rest.length := by
  have h1 := Cursor.length_rest_skipWhile_le Text.isBlank c
  have h2 := Cursor.length_rest_skipWhile_le Text.isBlank
    ((c.skipWhile Text.isBlank).advance (first :: w).length)
  rw [Cursor.length_rest_advance] at h2
  rw [hrest] at h1 h2
  simp only [List.length_cons] at h1 h2 ⊢
  omega

theorem scanBehind_nil {name : Text} {props : Entries Text} {attrName : Text} {behind : Cursor}
    (h : behind.rest = []) : scanBehind name props attrName behind = none := by
  rw [scanBehind, if_neg (by simp [h])]
  exact scanAttributes_nil name props (Cursor.rest_skipWhile_eq_nil _ h)

theorem bind_scanBehind_eq_none {name : Text} {props : Entries Text} {attrName : Text}
    {behind : Cursor} (h : stop ≤ behind.offset) :
    (scanBehind name props attrName behind).bind (excerpt? base stop) = none := by
  rw [scanBehind]
  split
  · cases hv : scanValue props attrName ((behind.advance 1).skipWhile Text.isBlank) with
    | error e => rfl
    | ok v =>
        have hoffset := offset_lt_of_scanValue hv
        have : behind.offset ≤ ((behind.advance 1).skipWhile Text.isBlank).offset :=
          Nat.le_add_right_of_le (Nat.le_succ behind.offset)
        exact bind_excerpt?_eq_none (by omega)
  · exact bind_excerpt?_eq_none h

/-- What follows the name of an attribute, in an excerpt, if the attributes that are read after it
are read there as they are in the text. -/
theorem scanBehind_excerpt {name : Text} {behind : Cursor} (props : Entries Text) (attrName : Text)
    (hbase : base ≤ behind.offset)
    (ih : ∀ (props : Entries Text) (next : Cursor), base ≤ next.offset →
      next.rest.length ≤ behind.rest.length →
      (scanAttributes name props (next.excerpt base stop)).1 =
        (scanAttributes name props next).1.bind (excerpt? base stop)) :
    scanBehind name props attrName (behind.excerpt base stop) =
      (scanBehind name props attrName behind).bind (excerpt? base stop) := by
  rcases Nat.lt_or_ge behind.offset stop with hlt | hge
  · have hhead : (behind.excerpt base stop).rest.head? = behind.rest.head? := by
      show (behind.rest.take (stop - behind.offset)).head? = _
      rw [List.head?_take, if_neg (by omega)]
    rw [scanBehind, scanBehind, hhead]
    split
    · rw [toOption_scanValue_behind_excerpt hbase]
      cases hv : scanValue props attrName ((behind.advance 1).skipWhile Text.isBlank) with
      | error e => rfl
      | ok v =>
          obtain ⟨hlen, hoffset⟩ := length_scanValue hv
          have hskip := Cursor.length_rest_skipWhile_le Text.isBlank (behind.advance 1)
          have hadvance := Cursor.length_rest_advance behind 1
          have hbehind : behind.offset ≤ ((behind.advance 1).skipWhile Text.isBlank).offset :=
            Nat.le_add_right_of_le (Nat.le_succ behind.offset)
          show (valueExcerpt? base stop v).bind _ =
            (scanAttributes name v.1 v.2).1.bind (excerpt? base stop)
          rw [valueExcerpt?]
          split
          · exact ih v.1 v.2 (by omega) (by omega)
          · next hout => rw [bind_excerpt?_eq_none (by omega), Option.bind_none]
    · exact ih props behind hbase (Nat.le_refl _)
  · rw [scanBehind_nil (Cursor.rest_excerpt_eq_nil hge), bind_scanBehind_eq_none hge]

/-- One step of the reading in an excerpt, if the attributes that are read after it are read there
as they are in the text. -/
theorem scanHere_excerpt {name : Text} {here : Cursor} (props : Entries Text)
    (hbase : base ≤ here.offset) {first : Char} {r : Text} (hrest : here.rest = first :: r)
    (hlt : here.offset < stop)
    (ih : ∀ (props : Entries Text) (next : Cursor), base ≤ next.offset →
      next.rest.length ≤ ((here.advance (first :: r.takeWhile isAttributeChar).length).skipWhile
        Text.isBlank).rest.length →
      (scanAttributes name props (next.excerpt base stop)).1 =
        (scanAttributes name props next).1.bind (excerpt? base stop)) :
    scanHere name props (here.excerpt base stop) first (r.take (stop - (here.offset + 1))) =
      (scanHere name props here first r).bind (excerpt? base stop) := by
  have hoffset : (here.excerpt base stop).offset = here.offset - base := rfl
  have hhead : (r.take (stop - (here.offset + 1))).head? = some '>' ↔
      here.offset + 2 ≤ stop ∧ r.head? = some '>' := by
    rw [List.head?_take]
    split
    · next hzero =>
        simp only [reduceCtorEq, false_iff, not_and]
        omega
    · next hpos => exact (and_iff_right (by omega)).symm
  rw [scanHere, scanHere]
  simp only [hhead]
  by_cases hclose : first = '/' ∧ r.head? = some '>'
  · rw [if_pos hclose, Option.bind_some, excerpt?]
    obtain ⟨rfl, hr⟩ := hclose
    by_cases hin : here.offset + 2 ≤ stop
    · rw [if_pos ⟨rfl, hin, hr⟩, if_pos hin, hoffset, Nat.sub_add_comm hbase]
    · rw [if_neg fun h => hin h.2.1, if_neg hin]
      rfl
  · rw [if_neg hclose, if_neg fun h => hclose ⟨h.1, h.2.2⟩]
    split
    · rw [Option.bind_some, excerpt?, if_pos (show here.offset + 1 ≤ stop from hlt), hoffset,
        Nat.sub_add_comm hbase]
    · split
      · rcases behind_excerpt hbase hrest hlt with ⟨-, hword, hbehind⟩ | ⟨hge, hnil⟩
        · rw [hbehind, hword]
          refine scanBehind_excerpt props _ ?_ ih
          exact Nat.le_trans hbase (Nat.le_add_right_of_le (Nat.le_add_right _ _))
        · rw [scanBehind_nil hnil, bind_scanBehind_eq_none hge]
      · rfl

/-- The attributes and the closing mark of a tag, in an excerpt. -/
theorem scanAttributes_excerpt (name : Text) (props : Entries Text) (hbase : base ≤ c.offset) :
    (scanAttributes name props (c.excerpt base stop)).1 =
      (scanAttributes name props c).1.bind (excerpt? base stop) := by
  induction hlen : c.rest.length using Nat.strongRecOn generalizing c props with
  | ind l ih =>
      rcases Cursor.skipWhile_excerpt stop hbase Text.isBlank with
        ⟨hlt, hskip⟩ | ⟨hge, hnil⟩
      · have hhere : base ≤ (c.skipWhile Text.isBlank).offset :=
          Nat.le_trans hbase (Nat.le_add_right _ _)
        cases hrest : (c.skipWhile Text.isBlank).rest with
        | nil =>
            have hnil : ((c.excerpt base stop).skipWhile Text.isBlank).rest = [] := by
              rw [hskip, Cursor.excerpt, hrest, List.take_nil]
            rw [scanAttributes_nil name props hrest, scanAttributes_nil name props hnil]
            rfl
        | cons first r =>
            have hshorter := length_behind_lt hrest (r.takeWhile isAttributeChar)
            have hrest' : ((c.excerpt base stop).skipWhile Text.isBlank).rest =
                first :: r.take (stop - ((c.skipWhile Text.isBlank).offset + 1)) := by
              rw [hskip]
              exact Cursor.rest_excerpt_cons hrest hlt
            rw [fst_scanAttributes_cons name props hrest, fst_scanAttributes_cons name props hrest',
              hskip]
            refine scanHere_excerpt props hhere hrest hlt fun props next hnext hle => ?_
            exact ih next.rest.length (by omega) props hnext rfl
      · rw [scanAttributes_nil name props hnil, ← scanAttributes_skipWhile,
          bind_excerpt?_eq_none hge]

theorem scanAt_cons_cons {first : Char} {r : Text} (hrest : c.rest = '<' :: first :: r) :
    (scanAt c).1 =
      if 'A' ≤ first ∧ first ≤ 'Z' then
        (scanAttributes (first :: r.takeWhile Text.isWordChar) []
          ((c.advance 1).advance (first :: r.takeWhile Text.isWordChar).length)).1
      else none := by
  rw [scanAt, hrest]
  simp only
  split
  · simp only [Cursor.advance, List.drop_drop, Nat.add_assoc, Nat.add_comm 1]
  · rfl

theorem exists_cons_of_scanAt {tag : Tag} (h : (scanAt c).1 = some tag) :
    ∃ first r, c.rest = '<' :: first :: r := by
  rw [scanAt] at h
  split at h
  · next first r hrest => exact ⟨first, r, hrest⟩
  · simp at h

theorem offset_add_two_lt_stop_of_scanAt {tag : Tag} (h : (scanAt c).1 = some tag) :
    c.offset + 2 < tag.stop := by
  obtain ⟨first, r, hrest⟩ := exists_cons_of_scanAt h
  rw [scanAt_cons_cons hrest] at h
  split at h
  · have := offset_lt_stop_of_scanAttributes h
    simp only [Cursor.advance, List.length_cons] at this
    omega
  · cases h

/-- In an excerpt there is the tag that is there in the text, if it ends in it, and otherwise
none. -/
theorem scanAt_excerpt (hbase : base ≤ c.offset) :
    (scanAt (c.excerpt base stop)).1 = (scanAt c).1.bind (excerpt? base stop) := by
  by_cases hin : c.offset + 2 ≤ stop ∧ ∃ first r, c.rest = '<' :: first :: r
  · obtain ⟨hlt, first, r, hrest⟩ := hin
    have hone : base ≤ (c.advance 1).offset := Nat.le_succ_of_le hbase
    have hlt' : (c.advance 1).offset < stop := hlt
    have hrest' : (c.advance 1).rest = first :: r := by
      rw [Cursor.advance, hrest]
      rfl
    have hwithin : (c.excerpt base stop).rest =
        '<' :: first :: r.take (stop - ((c.advance 1).offset + 1)) := by
      have hmore : ((c.advance 1).excerpt base stop).rest = _ :=
        Cursor.rest_excerpt_cons hrest' hlt'
      rw [Cursor.rest_excerpt_cons hrest (Nat.lt_of_succ_lt hlt), ← hmore, Cursor.excerpt, hrest']
      rfl
    rw [scanAt_cons_cons hrest, scanAt_cons_cons hwithin, Cursor.advance_excerpt hbase]
    split
    · rcases Cursor.word_excerpt hone hrest' hlt' Text.isWordChar with
        ⟨-, hword, heq⟩ | ⟨hge, hnil⟩
      · rw [heq, hword]
        exact scanAttributes_excerpt _ [] (Nat.le_add_right_of_le hone)
      · rw [scanAttributes_nil _ [] (Cursor.rest_skipWhile_eq_nil _ hnil),
          bind_excerpt?_eq_none hge]
    · rfl
  · have hnone : (scanAt (c.excerpt base stop)).1 = none := by
      rw [Option.eq_none_iff_forall_ne_some]
      intro tag htag
      obtain ⟨first, r, hrest⟩ := exists_cons_of_scanAt htag
      have htake : c.rest.take (stop - c.offset) = '<' :: first :: r := hrest
      have happend := List.take_append_drop (stop - c.offset) c.rest
      have hlen := congrArg List.length htake
      rw [List.length_take, List.length_cons, List.length_cons] at hlen
      rw [htake] at happend
      exact hin ⟨by omega, first, _, happend.symm⟩
    rw [hnone, eq_comm, Option.bind_eq_none_iff]
    intro tag htag
    have hstop := offset_add_two_lt_stop_of_scanAt htag
    exact excerpt?_eq_none (Nat.lt_of_not_le fun hle =>
      hin ⟨by omega, exists_cons_of_scanAt htag⟩)

end Tag

end InverseTemplate
