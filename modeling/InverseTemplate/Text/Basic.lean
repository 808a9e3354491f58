/-
# Text

A text is a list of characters.  Every offset of this library counts characters, every scanner
walks down the list, and every law about texts is an induction on it, so the list is the text
and not a view of something else.  `String` appears only where a constant is written down or
where the outer layer hands bytes in and out.

Texts are split and joined as lists are.  The functions here are the few other operations that
several modules need: cutting by offsets, searching and replacing a word, and writing a number.
-/

namespace InverseTemplate

/-- A text, as the list of its characters. -/
abbrev Text : Type := List Char

/-- The text of a constant. -/
def text (s : String) : Text := s.toList

namespace Text

/-! ## Cutting by offsets -/

/-- The characters from offset `start` up to, and without, offset `stop`. -/
def slice (t : Text) (start stop : Nat) : Text := (t.drop start).take (stop - start)

/-! ## Words inside a text -/

/-- Does `word` occur anywhere in the text?  The empty word occurs everywhere. -/
def includes (word : Text) : Text → Bool
  | [] => word.isEmpty
  | c :: r => word.isPrefixOf (c :: r) || includes word r

/-- Every occurrence of `word`, from left to right and without overlaps, gives way to
`replacement`.  An empty word is not looked for. -/
def replaceAll (word replacement : Text) : Text → Text
  | [] => []
  | c :: r =>
      if word ≠ [] ∧ word.isPrefixOf (c :: r) then
        replacement ++ replaceAll word replacement (r.drop (word.length - 1))
      else c :: replaceAll word replacement r
termination_by t => t.length
decreasing_by all_goals (simp only [List.length_cons, List.length_drop]; omega)

/-! ## Numbers -/

/-- The digits of a natural number. -/
def ofNat (n : Nat) : Text := Nat.toDigits 10 n

theorem isDigit_of_mem_ofNat {n : Nat} {c : Char} (h : c ∈ ofNat n) : c.isDigit = true :=
  Nat.isDigit_of_mem_toDigits (by decide) (by decide) h

theorem not_mem_ofNat {n : Nat} {c : Char} (hc : c.isDigit = false) : c ∉ ofNat n := by
  intro hmem
  rw [isDigit_of_mem_ofNat hmem] at hc
  cases hc

theorem ofNat_injective {m n : Nat} (h : ofNat m = ofNat n) : m = n := by
  calc m = Nat.ofDigitChars 10 (ofNat m) 0 := Nat.ofDigitChars_ten_toDigits.symm
    _ = Nat.ofDigitChars 10 (ofNat n) 0 := by rw [h]
    _ = n := Nat.ofDigitChars_ten_toDigits

/-- The digits of an integer, with a minus sign in front when it is negative. -/
def ofInt : Int → Text
  | .ofNat n => ofNat n
  | .negSucc n => '-' :: ofNat (n + 1)

end Text

end InverseTemplate
