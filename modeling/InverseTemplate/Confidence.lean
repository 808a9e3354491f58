/-
# Confidence

The confidence of an extraction is its completeness: the weight of the slots that were resolved
out of the weight of all slots.  By default every slot weighs the same; kinds of slots can be
given weights of their own.

The rule is one for every kind of numbers that can be added, subtracted, divided and compared;
a run computes with doubles.
-/
import InverseTemplate.Template.Slot

namespace InverseTemplate

/-- What slots of each kind weigh. -/
structure Weights (α : Type) where
  byKind : List (SlotKind × α)
  /-- The weight of the kinds that are not listed. -/
  other : α

/-- The weight of a slot. -/
def Weights.ofSlot {α : Type} (weights : Weights α) (slot : Slot) : α :=
  match weights.byKind.find? (·.1 = slot.kind) with
  | some (_, weight) => weight
  | none => weights.other

namespace Confidence

variable {α : Type} [OfNat α 0] [OfNat α 1] [Add α] [Sub α] [Div α] [LT α] [LE α]
  [DecidableLT α] [DecidableLE α]

/-- The number between 0 and 1 that is nearest; what compares with nothing counts as 1. -/
def clamp (x : α) : α :=
  let capped : α := if x < 1 then x else 1
  if 0 < capped then capped else 0

/-- The weight of all slots of a list, added from left to right. -/
def total (weight : Slot → α) (slots : List Slot) : α :=
  slots.foldl (fun sum slot => sum + weight slot) 0

/-- The share of the weight that is not missing; all of it, if there is no weight at all. -/
def share (whole missed : α) : α := if whole ≤ 0 then 1 else clamp ((whole - missed) / whole)

/-- The share of the slots that is not among the unmatched ones. -/
def ratio (slots unmatched : List Slot) : α :=
  share (total (fun _ => 1) slots) (total (fun _ => 1) unmatched)

/-- The share of the weight that is not among the unmatched slots. -/
def weighted (weights : Weights α) (slots unmatched : List Slot) : α :=
  share (total weights.ofSlot slots) (total weights.ofSlot unmatched)

end Confidence

/-- How an extraction is scored. -/
inductive Scorer where
  | ratio
  | weighted (weights : Weights Float)

/-- The confidence of an extraction, given all slots and those that were not resolved. -/
def Scorer.score (scorer : Scorer) (slots unmatched : List Slot) : Float :=
  match scorer with
  | .ratio => Confidence.ratio slots unmatched
  | .weighted weights => Confidence.weighted weights slots unmatched

end InverseTemplate
