/-
# When the provider is asked

Assistance is asked for where plain extraction left something over, and nowhere else.  The threshold
seems to have a say in it, but it has none: an extraction that left nothing over has full confidence
under every scorer, and no threshold lies above that.

A provider that only answers cannot tell how often it was asked.  So the asking is proved for
providers that act in a monad (`extractAssistedIn_eq`), and counted with one that writes down the
requests it gets (`observed_eq`).
-/
import InverseTemplate.Assist
import InverseTemplate.Proofs.Confidence
import InverseTemplate.Proofs.Difference.Written
import InverseTemplate.Proofs.Extraction.LeftOver
import InverseTemplate.Proofs.Extraction.Total

namespace InverseTemplate

namespace Assist

theorem confidenceAfter_bounds {plain : Float} (hself : plain ≤ plain) (hone : plain ≤ 1)
    (answered : Float) :
    plain ≤ confidenceAfter plain answered ∧ confidenceAfter plain answered ≤ 1 :=
  Confidence.higher_bounds hself hone (Confidence.capped_le_one _)

/-! ## Asking -/

/-- The threshold has no say: nothing is left to ask for exactly if nothing is unmatched. -/
theorem isComplete_iff {settings : Settings} {options : ExtractOptions} {strict : Option Bool}
    {source rendered : Text} {e : Extraction} (hthreshold : settings.threshold ≤ 1)
    (h : extract settings options strict source rendered = .ok e) :
    isComplete settings e = true ↔ e.unmatched = [] := by
  obtain ⟨left, hunmatched, -, hconfidence⟩ := exists_unmatched_of_extract h
  unfold isComplete Extraction.matched
  rw [Bool.and_eq_true, List.isEmpty_iff, decide_eq_true_eq]
  refine ⟨And.right, fun hnil => ⟨?_, hnil⟩⟩
  have hleft : left = [] := List.map_eq_nil_iff.mp (hunmatched ▸ hnil)
  rw [hconfidence, hleft, Scorer.score_nil]
  exact hthreshold

theorem mem_keys_hints_iff {settings : Settings} {options : ExtractOptions} {strict : Option Bool}
    {source rendered : Text} {e : Extraction}
    (h : extract settings options strict source rendered = .ok e) {label : Text} :
    label ∈ Entries.keys (Request.about source rendered e.unmatched).hints ↔
      label ∈ e.unmatched := by
  obtain ⟨left, hunmatched, hsub, -⟩ := exists_unmatched_of_extract h
  unfold Request.about
  rw [Entries.mem_keys_ofWrites, List.map_map, List.mem_map]
  constructor
  · rintro ⟨slot, hslot, rfl⟩
    exact List.contains_iff_mem.mp (List.mem_filter.mp hslot).2
  · intro hlabel
    obtain ⟨slot, hslot, rfl⟩ := List.mem_map.mp (hunmatched ▸ hlabel)
    exact ⟨slot, List.mem_filter.mpr ⟨hsub.subset hslot, List.contains_iff_mem.mpr hlabel⟩, rfl⟩

theorem ofParts_withThreshold (settings : Settings) (x : Float) (blocks : List Span) (t : Text)
    (index : Nat) (scan : Scan) (parts : List (Slot × Text)) :
    Captures.ofParts { settings with threshold := x } blocks t index scan parts =
      Captures.ofParts settings blocks t index scan parts := by
  induction parts generalizing index scan with
  | nil => rfl
  | cons part rest ih =>
      simp only [Captures.ofParts, ih]
      rfl

theorem patternOfParts_withThreshold (settings : Settings) (x : Float) (index : Nat)
    (parts : List (Slot × Text)) :
    patternOfParts { settings with threshold := x } index parts =
      patternOfParts settings index parts := by
  induction parts generalizing index with
  | nil => rfl
  | cons part rest ih =>
      simp only [patternOfParts, ih]
      rfl

theorem extract_withThreshold (settings : Settings) (options : ExtractOptions)
    (strict : Option Bool) (source rendered : Text) (x : Float) :
    extract { settings with threshold := x } options strict source rendered =
      extract settings options strict source rendered := by
  have hfind : ∀ template, Captures.find { settings with threshold := x } template rendered =
      Captures.find settings template rendered := by
    intro template
    unfold Captures.find
    dsimp only
    rw [ofParts_withThreshold]
  unfold extract Extraction.lenient Template.pattern
  dsimp only
  rw [hfind, patternOfParts_withThreshold]
  rfl

/-- In every monad a provider is asked about what is unmatched, and is not asked if nothing is. -/
theorem extractAssistedIn_eq {m : Type → Type} [Monad m] [LawfulMonad m] [MonadExceptOf Failure m]
    {settings : Settings} {options : ExtractOptions} {source rendered : Text} {e : Extraction}
    (hthreshold : settings.threshold ≤ 1)
    (h : extract settings options (some false) source rendered = .ok e)
    (provider : Option (ProviderIn m)) :
    extractAssistedIn settings options provider source rendered =
      if e.unmatched = [] then pure (unanswered e false)
      else
        match provider with
        | none => pure (unanswered e true)
        | some ask => do
            let response ← ask (.about source rendered e.unmatched)
            return answered settings e (.about source rendered e.unmatched) response := by
  have hcomplete := isComplete_iff hthreshold h
  unfold extractAssistedIn
  rw [h]
  refine (pure_bind e _).trans ?_
  by_cases hnil : e.unmatched = []
  · rw [if_pos (hcomplete.mpr hnil), if_pos hnil]
  · refine (if_neg (mt hcomplete.mp hnil)).trans (Eq.trans ?_ (if_neg hnil).symm)
    cases provider <;> rfl

/-- The provider that besides answering writes down what it is asked. -/
def recorded (ask : Provider) : ProviderIn (ExceptT Failure (StateM (List Request))) :=
  fun request => do
    modify (· ++ [request])
    MonadExcept.ofExcept (ask request)

/-- What an assisted extraction answers, and what its provider was asked on the way, also if the
provider failed. -/
def observed (settings : Settings) (options : ExtractOptions) (ask : Provider)
    (source rendered : Text) : Except Failure Outcome × List Request :=
  (extractAssistedIn settings options (some (recorded ask)) source rendered).run.run []

/-- Writing down the requests changes nothing in the answer, and what is written down is one request
if something is unmatched and none if nothing is. -/
theorem observed_eq {settings : Settings} {options : ExtractOptions} {source rendered : Text}
    {e : Extraction} (hthreshold : settings.threshold ≤ 1)
    (h : extract settings options (some false) source rendered = .ok e) (ask : Provider) :
    observed settings options ask source rendered =
      (extractAssisted settings options (some ask) source rendered,
        if e.unmatched = [] then [] else [.about source rendered e.unmatched]) := by
  unfold observed extractAssisted
  rw [extractAssistedIn_eq hthreshold h, extractAssistedIn_eq hthreshold h]
  split
  · rfl
  · dsimp only [recorded]
    cases ask (.about source rendered e.unmatched) with
    | ok response => rfl
    | error failure => rfl

/-- With extractors that answer there is a plain extraction, and what it leaves unmatched decides
whether the provider is asked: once if there is something, else never.  The request has one hint for
each unmatched label and no others.  Under every other threshold of at most one the same is asked
and the same comes out.  Where the provider answers there is an outcome, whose confidence lies
between the plain one and one. -/
theorem asks_about_unmatched {settings : Settings} {options : ExtractOptions}
    (hanswering : options.extractors.Answering) (hthreshold : settings.threshold ≤ 1)
    (ask : Provider) (source rendered : Text) :
    ∃ e, extract settings options (some false) source rendered = .ok e ∧
      let request := Request.about source rendered e.unmatched
      observed settings options ask source rendered =
        (extractAssisted settings options (some ask) source rendered,
          if e.unmatched = [] then [] else [request]) ∧
      (Entries.keys request.hints).Nodup ∧
      (∀ label, label ∈ Entries.keys request.hints ↔ label ∈ e.unmatched) ∧
      (∀ x ≤ 1, observed { settings with threshold := x } options ask source rendered =
          observed settings options ask source rendered ∧
        ∀ provider, extractAssisted { settings with threshold := x } options provider source
            rendered = extractAssisted settings options provider source rendered) ∧
      ∀ response, e.unmatched ≠ [] → ask request = .ok response →
        ∃ o, extractAssisted settings options (some ask) source rendered = .ok o ∧
          e.confidence ≤ o.confidence ∧ o.confidence ≤ 1 := by
  obtain ⟨e, he⟩ := exists_extract_of_answering hanswering
    (show (some false).getD settings.strict = false from rfl) source rendered
  have hother (x : Float) : extract { settings with threshold := x } options (some false) source
      rendered = .ok e := by
    rw [extract_withThreshold]
    exact he
  have hoption (x : Float) (hx : ({ settings with threshold := x } : Settings).threshold ≤ 1)
      (provider : Option Provider) :
      extractAssisted { settings with threshold := x } options provider source rendered =
        extractAssisted settings options provider source rendered := by
    unfold extractAssisted
    rw [extractAssistedIn_eq hthreshold he, extractAssistedIn_eq hx (hother x)]
    split
    · rfl
    · cases provider <;> rfl
  refine ⟨e, he, observed_eq hthreshold he ask, Entries.nodupKeys_ofWrites _,
    fun label => mem_keys_hints_iff he, ?_, ?_⟩
  · intro x (hx : ({ settings with threshold := x } : Settings).threshold ≤ 1)
    refine ⟨?_, hoption x hx⟩
    rw [observed_eq hthreshold he, observed_eq hx (hother x), hoption x hx]
  · intro response hunmatched hanswer
    obtain ⟨left, -, -, hconfidence⟩ := exists_unmatched_of_extract he
    obtain ⟨hself, hone⟩ :=
      options.scorer.score_bounds (Template.ofText source).slots left
    refine ⟨answered settings e (.about source rendered e.unmatched) response, ?_, ?_⟩
    · unfold extractAssisted
      rw [extractAssistedIn_eq hthreshold he, if_neg hunmatched]
      dsimp only
      rw [hanswer]
      rfl
    · rw [← hconfidence] at hself hone
      exact confidenceAfter_bounds hself hone response.confidence

/-- Of a path and a call the call is left over, so the provider is asked about it once, whatever the
threshold. -/
theorem asks_about_unmatched_call :
    let source := text "# \x7bt\x7d\n\n\x7bf(t)\x7d"
    let rendered := text "# T\n\nx"
    let ask : Provider := fun _ => .ok { data := .map [], confidence := 2, unmatched := none }
    let request := Request.about source rendered [text "f(t)"]
    observed {} {} ask source rendered =
        (extractAssisted {} {} (some ask) source rendered, [request]) ∧
      (∀ label, label ∈ Entries.keys request.hints ↔ label = text "f(t)") ∧
      observed { threshold := 0.5 } {} ask source rendered = observed {} {} ask source rendered ∧
      ∃ o, extractAssisted {} {} (some ask) source rendered = .ok o ∧ o.confidence ≤ 1 := by
  intro source rendered ask request
  have hanswering : (ExtractOptions.extractors {}).Answering := by
    intro name extractor content hget
    simp at hget
  obtain ⟨e, he, hobserved, -, hhints, hthreshold, hbounds⟩ :=
    @asks_about_unmatched {} {} hanswering (show (1.0 : Float) ≤ 1 by decide +kernel) ask source
      rendered
  obtain ⟨e', he', -, hunmatched, -⟩ := exists_extract_of_not_reads {} {} (some false)
    (fun slot _ => ExtractOptions.not_reads_of_extractors_eq_nil rfl slot) rfl
  have hleft : e.unmatched = [text "f(t)"] := by
    obtain rfl : e = e' := Except.ok.inj (he.symm.trans he')
    rw [hunmatched]
    decide +kernel
  rw [hleft] at hobserved hhints hbounds
  obtain ⟨o, ho, -, hone⟩ := hbounds _ (List.cons_ne_nil _ _) rfl
  refine ⟨hobserved, fun label => (hhints label).trans List.mem_singleton, ?_, o, ho, hone⟩
  exact (hthreshold 0.5 (by decide +kernel)).1

end Assist

end InverseTemplate
