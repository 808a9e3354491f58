/-
# Confidence in doubles

An extraction that resolved every slot has confidence one, whatever the slots weigh: no weight at
all, weights that add up to an infinity or to something that is not a number, and ordinary ones,
where the whole is divided by itself.

The last case is about doubles.  Nothing is taken from a finite one by subtracting zero, because
packing gives back the bits that were unpacked, and the quotient of two equal ones is exact.

Every other extraction has a confidence between zero and one, which is a number even where the
weights are none.
-/
import Mathlib
import InverseTemplate.Confidence

namespace InverseTemplate

open Float.Model UnpackedFloat

namespace Confidence

theorem float_sub_zero (w : Float) : w - 0 = w := by
  have hsub : UnpackedFloat.sub Format.binary64 w.toModel.unpack (.zero .positive) =
      w.toModel.unpack := by
    cases w.toModel.unpack with
    | zero s => cases s <;> rfl
    | _ => rfl
  show Float.ofModel (.pack (.sub Format.binary64 w.toModel.unpack (.zero .positive))) = w
  rw [hsub, ← Float.toBits_inj, ← UInt64.toBitVec_inj]
  exact pack_unpack_of_valid w.toModel.valid

theorem div_self_of_finite {w : Float} {s : Sign} {m : Nat} {e : Int} {hm : 0 < m}
    (h : w.toModel.unpack = .finite s m e hm) : w / w = 1 := by
  have hcore : divCore Format.binary64 m e m e = (2 ^ 53, -53, .exact) := by
    unfold divCore
    have htarget : min (e - e)
        (Format.binary64.targetExponent (totalExponent m e - totalExponent m e)) = -53 := by
      rw [Int.sub_self, Int.sub_self]
      decide +kernel
    have hamount : (e - e - -53).toNat = 53 := by
      rw [Int.sub_self]
      rfl
    dsimp only
    rw [htarget, hamount, Nat.shiftLeft_eq, Nat.mul_div_cancel_left _ hm, Nat.mul_mod_right]
    rfl
  have hsign : s / s = .positive := by cases s <;> rfl
  show Float.ofModel (.pack (.div Format.binary64 w.toModel.unpack w.toModel.unpack)) = 1
  rw [h, UnpackedFloat.div, hcore, hsign]
  decide +kernel

theorem div_self_of_not_finite {w : Float}
    (h : (∃ s, w.toModel.unpack = .infinity s) ∨ w.toModel.unpack = .notANumber) :
    w / w = Float.ofModel (.pack .notANumber) := by
  show Float.ofModel (.pack (.div Format.binary64 w.toModel.unpack w.toModel.unpack)) = _
  rcases h with ⟨s, h⟩ | h
  · rw [h]
    rfl
  · rw [h]
    rfl

theorem share_zero (whole : Float) : share whole 0 = 1 := by
  unfold share
  split
  · rfl
  · next hle =>
      rw [float_sub_zero]
      cases h : whole.toModel.unpack with
      | finite s m e hm =>
          rw [div_self_of_finite h]
          decide +kernel
      | zero s =>
          refine absurd (decide_eq_true_iff.mpr ?_) hle
          show UnpackedFloat.le whole.toModel.unpack (.zero .positive) = true
          rw [h]
          rfl
      | infinity s =>
          rw [div_self_of_not_finite (.inl ⟨s, h⟩)]
          decide +kernel
      | notANumber =>
          rw [div_self_of_not_finite (.inr h)]
          decide +kernel

/-! ## Doubles in order -/

theorem compare_of_lt {a b : Float} (h : a < b) :
    UnpackedFloat.compare a.toModel.unpack b.toModel.unpack = some .lt := by
  have hlt : UnpackedFloat.lt a.toModel.unpack b.toModel.unpack = true :=
    of_decide_eq_true (show Float.lt a b = true from h)
  simpa [UnpackedFloat.lt] using hlt

theorem le_of_compare {a b : Float} {o : Ordering}
    (h : UnpackedFloat.compare a.toModel.unpack b.toModel.unpack = some o) (ho : o.isLE = true) :
    a ≤ b := by
  have hle : UnpackedFloat.le a.toModel.unpack b.toModel.unpack = true := by
    simp [UnpackedFloat.le, h, ho]
  exact (decide_eq_true hle : Float.le a b = true)

theorem float_le_of_lt {a b : Float} (h : a < b) : a ≤ b := le_of_compare (compare_of_lt h) rfl

theorem float_le_self_of_lt {a b : Float} (h : a < b) : b ≤ b := by
  have hcompare := compare_of_lt h
  refine le_of_compare (o := .eq) ?_ rfl
  cases hb : b.toModel.unpack with
  | notANumber =>
      rw [hb] at hcompare
      cases ha : a.toModel.unpack <;> simp [ha, UnpackedFloat.compare] at hcompare
  | infinity s => cases s <;> rfl
  | zero s => rfl
  | finite s m e hm => cases s <;> simp [UnpackedFloat.compare, Ordering.swap]

theorem capped_le_one (x : Float) : (if x < 1 then x else 1) ≤ 1 := by
  split
  · next hbelow => exact float_le_of_lt hbelow
  · decide +kernel

theorem higher_bounds {a b : Float} (hself : a ≤ a) (ha : a ≤ 1) (hb : b ≤ 1) :
    a ≤ (if a < b then b else a) ∧ (if a < b then b else a) ≤ 1 := by
  split
  · next hlt => exact ⟨float_le_of_lt hlt, hb⟩
  · exact ⟨hself, ha⟩

theorem clamp_cases (x : Float) :
    clamp x = 0 ∨ clamp x = 1 ∨ (0 < clamp x ∧ clamp x < 1) := by
  unfold clamp
  by_cases hbelow : x < 1
  · by_cases hpositive : 0 < x
    · simp [hbelow, hpositive]
    · simp [hbelow, hpositive]
  · have hone : (0 : Float) < 1 := by decide +kernel
    simp [hbelow, hone]

theorem share_cases (whole missed : Float) :
    share whole missed = 0 ∨ share whole missed = 1 ∨
      (0 < share whole missed ∧ share whole missed < 1) := by
  unfold share
  split
  · exact .inr (.inl rfl)
  · exact clamp_cases _

end Confidence

theorem Scorer.score_nil (scorer : Scorer) (slots : List Slot) : scorer.score slots [] = 1 := by
  cases scorer with
  | ratio => exact Confidence.share_zero _
  | weighted weights => exact Confidence.share_zero _

/-- A confidence is a number, and one at most. -/
theorem Scorer.score_bounds (scorer : Scorer) (slots unmatched : List Slot) :
    scorer.score slots unmatched ≤ scorer.score slots unmatched ∧
      scorer.score slots unmatched ≤ 1 := by
  have hcases : scorer.score slots unmatched = 0 ∨ scorer.score slots unmatched = 1 ∨
      (0 < scorer.score slots unmatched ∧ scorer.score slots unmatched < 1) := by
    cases scorer <;> exact Confidence.share_cases _ _
  rcases hcases with h | h | ⟨hpositive, hbelow⟩
  · rw [h]
    decide +kernel
  · rw [h]
    decide +kernel
  · exact ⟨Confidence.float_le_self_of_lt hpositive, Confidence.float_le_of_lt hbelow⟩

end InverseTemplate
