/-
# What a stage may end with

A run is a row of stages, and each of them ends in one of three ways: with a result, with errors
for the user, or with a failure that nothing catches.  `Stage.Meets` says all three of one stage
at once: which results it has, which failures escape from it, and that the errors it tells begin
with a line that says so.  Stages that meet what they should meet it one after another
(`Stage.Meets.bind`), so a run is taken apart into its stages once and for all.
-/
import InverseTemplate.CommandLine.Run

namespace InverseTemplate

namespace CommandLine

/-- The first of the errors begins by saying that it is one. -/
def Told (errors : List Text) : Prop :=
  ∃ line rest, errors = line :: rest ∧
    (text "Error" <+: line ∨ text "Extraction error" <+: line)

theorem told_append {lead : Text} (h : text "Error" <+: lead) (more : Text) : Told [lead ++ more] :=
  ⟨lead ++ more, [], rfl, .inl (h.trans (List.prefix_append ..))⟩

namespace Stage

variable {α β : Type}

/-- The stage has exactly the results of one kind, lets escape exactly the failures of another, and
otherwise tells its errors. -/
structure Meets (s : Stage α) (results : α → Prop) (escapes : Failure → Prop) : Prop where
  ok_iff : ∀ a, s.result = .ok a ↔ results a
  escaped_iff : ∀ failure, s.result = .error (.escaped failure) ↔ escapes failure
  told : ∀ errors, s.result = .error (.failed errors) → Told errors

namespace Meets

variable {s : Stage α} {results results' : α → Prop} {escapes escapes' : Failure → Prop}

theorem congr (h : s.Meets results escapes) (hresults : ∀ a, results a ↔ results' a)
    (hescapes : ∀ failure, escapes failure ↔ escapes' failure) : s.Meets results' escapes' :=
  ⟨fun a => (h.ok_iff a).trans (hresults a), fun f => (h.escaped_iff f).trans (hescapes f), h.told⟩

theorem of_ok {a : α} (h : s.result = .ok a) : s.Meets (· = a) fun _ => False :=
  ⟨fun b => by rw [h, Except.ok.injEq]; exact eq_comm, fun f => by simp [h],
    fun errors => by simp [h]⟩

theorem of_failed {errors : List Text} (h : s.result = .error (.failed errors))
    (htold : Told errors) : s.Meets (fun _ => False) fun _ => False :=
  ⟨fun b => by simp [h], fun f => by simp [h], fun e he => by
    rw [h, Except.error.injEq, Halt.failed.injEq] at he
    exact he ▸ htold⟩

theorem of_escaped {failure : Failure} (h : s.result = .error (.escaped failure)) :
    s.Meets (fun _ => False) (· = failure) :=
  ⟨fun b => by simp [h], fun f => by
    rw [h, Except.error.injEq, Halt.escaped.injEq]
    exact eq_comm, fun errors => by simp [h]⟩

theorem bind {next : α → Stage β} {results' : α → β → Prop} {escapes' : α → Failure → Prop}
    (h : s.Meets results escapes)
    (hnext : ∀ a, results a → (next a).Meets (results' a) (escapes' a)) :
    (s >>= next).Meets (fun b => ∃ a, results a ∧ results' a b)
      fun failure => escapes failure ∨ ∃ a, results a ∧ escapes' a failure := by
  have hbind : (s >>= next).result = s.result.bind fun a => (next a).result := by
    show (Stage.bind s next).result = _
    unfold Stage.bind
    cases s.result with
    | ok a => rfl
    | error halt => rfl
  cases hs : s.result with
  | ok a =>
      have ha := (h.ok_iff a).mp hs
      have hunique : ∀ b, results b → b = a := by
        intro b hb
        have := (h.ok_iff b).mpr hb
        rw [hs, Except.ok.injEq] at this
        exact this.symm
      have hnone : ∀ failure, ¬ escapes failure := by
        intro failure hf
        have := (h.escaped_iff failure).mpr hf
        rw [hs] at this
        simp at this
      have hresult : (s >>= next).result = (next a).result := by rw [hbind, hs]; rfl
      obtain ⟨h1, h2, h3⟩ := hnext a ha
      refine ⟨fun b => ?_, fun failure => ?_, fun errors => ?_⟩
      · rw [hresult, h1]
        refine ⟨fun hb => ⟨a, ha, hb⟩, ?_⟩
        rintro ⟨a', ha', hb⟩
        obtain rfl := hunique a' ha'
        exact hb
      · rw [hresult, h2]
        refine ⟨fun hf => .inr ⟨a, ha, hf⟩, ?_⟩
        rintro (hf | ⟨a', ha', hf⟩)
        · exact absurd hf (hnone failure)
        · obtain rfl := hunique a' ha'
          exact hf
      · rw [hresult]
        exact h3 errors
  | error halt =>
      have hno : ∀ a, ¬ results a := by
        intro a ha
        have := (h.ok_iff a).mpr ha
        rw [hs] at this
        simp at this
      have hresult : (s >>= next).result = .error halt := by rw [hbind, hs]; rfl
      refine ⟨fun b => ?_, fun failure => ?_, fun errors he => ?_⟩
      · rw [hresult]
        simp [hno]
      · rw [hresult, ← h.escaped_iff, hs]
        simp [hno]
      · rw [hresult] at he
        exact h.told errors (by rw [hs, Except.error.injEq]; exact Except.error.inj he)

theorem of_ok_bind {a : α} {next : α → Stage β} {results : β → Prop} {escapes : Failure → Prop}
    (h : s.result = .ok a) (hnext : (next a).Meets results escapes) :
    (s >>= next).Meets results escapes := by
  have hall : ∀ b, b = a → (next b).Meets results escapes := by
    rintro b rfl
    exact hnext
  exact ((of_ok h).bind hall).congr (by simp) (by simp)

theorem skip {s : Stage Unit} {next : Unit → Stage β} {results : β → Prop}
    {escapes : Failure → Prop} (h : s.Meets (fun _ => True) fun _ => False)
    (hnext : (next ()).Meets results escapes) : (s >>= next).Meets results escapes :=
  (h.bind fun _ _ => hnext).congr (by simp) (by simp)

end Meets

theorem meets_pure (a : α) : Meets (Pure.pure a : Stage α) (· = a) fun _ => False := .of_ok rfl

theorem meets_pass : Meets (Stage.pure ()) (fun _ => True) fun _ => False :=
  (Meets.of_ok rfl).congr (by simp) (by simp)

theorem meets_say (level : Nat) (message : Text) :
    (say level message).Meets (fun _ => True) fun _ => False :=
  (Meets.of_ok rfl).congr (by simp) (by simp)

theorem meets_barring (failure? : Option Failure) :
    (barring failure?).Meets (fun _ => failure? = none) fun failure => failure? = some failure := by
  cases failure? with
  | none => exact (Meets.of_ok rfl).congr (by simp) (by simp)
  | some failure => exact (Meets.of_escaped rfl).congr (by simp) (by simp [eq_comm])

theorem meets_trace (events : List Event) :
    (trace events).Meets (fun _ => True) fun _ => False :=
  (Meets.of_ok rfl).congr (by simp) (by simp)

theorem meets_forM {f : α → Stage Unit} (h : ∀ a, (f a).Meets (fun _ => True) fun _ => False)
    (l : List α) : (l.forM f).Meets (fun _ => True) fun _ => False := by
  induction l with
  | nil => exact meets_pass
  | cons a rest ih => exact (h a).skip ih

end Stage

end CommandLine

end InverseTemplate
