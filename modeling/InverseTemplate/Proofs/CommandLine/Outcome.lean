/-
# How a run ends

A run is meant to end with a report, or with an error for the user and none.  It does, but for the
failures that nothing catches.  Reading stops with one at a template or a rendered text that is no
text, and at whatever the library for YAML does not announce as an error of the record.  So does a
run of which the file system refuses to tell whether a source is there, or to make the output
directory; one whose pattern for section breaks is no regular expression; one whose record or data
is nested too deeply to be compared; and one whose report cannot be written in its format.
`Escapes` lists these cases by what the run finds, each with all that has gone well before it, and
`run_ends` says that there are no others, and what the report holds where there is one.

Nothing is assumed of the library for YAML or of the file system: the world answers as it likes.
Extraction cannot fail here, because a run has no extractors; it is only refused when it is strict
and something is unmatched.
-/
import InverseTemplate.Proofs.CommandLine.Stage
import InverseTemplate.Proofs.Extraction.LeftOver
import InverseTemplate.Proofs.Extraction.Total

namespace InverseTemplate

namespace CommandLine

/-! ## What a run finds -/

/-- The name of the record, if one is given. -/
def recordName? (options : Options) : Option Text := options.record.filter (· ≠ [])

/-- Something stands at the name. -/
def Found (world : World) (name : Text) : Prop :=
  world.input name ≠ .missing ∧ ∀ message, world.input name ≠ .unknown message

/-- Of one of the named sources the system refuses to tell whether it is there, and all in front of
it are found. -/
def LookupFails (world : World) (named : List (Text × Text)) (message : Text) : Prop :=
  ∃ front source rest, named = front ++ source :: rest ∧ (∀ other ∈ front, Found world other.2) ∧
    world.input source.2 = .unknown message

/-- All sources are there, and the output directory is, too. -/
def Prepared (world : World) (options : Options) : Prop :=
  (∀ source ∈ sources options, Found world source.2) ∧ world.outputFault = none

/-- What stands at the name is a text. -/
def Reads (world : World) (name t : Text) : Prop :=
  ∃ bytes, world.input name = .file bytes ∧ decoded? bytes = some t

/-- What stands at the name is a file, but not a text. -/
def Garbled (world : World) (name : Text) : Prop :=
  ∃ bytes, world.input name = .file bytes ∧ decoded? bytes = none

/-- Loading what stands at the name fails in a way that the library does not announce. -/
def LoadFails (world : World) (name : Text) (failure : Failure) : Prop :=
  ∃ bytes, world.input name = .file bytes ∧ world.load bytes = .failed failure

/-- What stands at the name of the record, if one is given, is a record. -/
inductive RecordReads (world : World) : Option Text → Option Record → Prop
  | unnamed : RecordReads world none none
  | named {name : Text} {bytes : ByteArray} {record : Record} : world.input name = .file bytes →
      (world.load bytes).record? = some record → RecordReads world (some name) (some record)

/-- What a run extracts. -/
def extracted (world : World) (options : Options) (template rendered : Text) :
    Except Failure Extraction :=
  extract world.settings { placement := options.placement.getD world.settings.placement }
    (some (options.strict || world.settings.strict)) template rendered

/-- What a record makes of an extraction. -/
def comparison (world : World) (options : Options) (record : Option Record) (e : Extraction) :
    Option Comparison :=
  record.map fun r =>
    { changes := Difference.between none (.map r.entries) (.map e.data)
      merged := applyExtracted (options.arrayMerge.getD world.settings.arrayMerge) none
        (.map r.entries) (.map e.data) }

/-- The record, if there is one, and the data can be walked to their bottoms. -/
def Fits (world : World) (record : Option Record) (e : Extraction) : Prop :=
  ∀ r ∈ record, world.fits (.map r.entries) = true ∧ world.fits (.map e.data) = true

/-- All sources are read, and the extraction has an outcome. -/
structure Extracts (world : World) (options : Options) (template rendered : Text)
    (record : Option Record) (e : Extraction) : Prop where
  outputFault_eq : world.outputFault = none
  template_reads : Reads world (options.template.getD []) template
  rendered_reads : Reads world (options.rendered.getD []) rendered
  record_reads : RecordReads world (recordName? options) record
  patternFault_eq : world.patternFault = none
  extracted_eq : extracted world options template rendered = .ok e

/-- All sources are read, the extraction has an outcome, it can be compared with the record, and
nothing is in the way of the report. -/
structure Ready (world : World) (options : Options) (template rendered : Text)
    (record : Option Record) (e : Extraction) : Prop
    extends Extracts world options template rendered record e where
  fits : Fits world record e
  target_eq : world.target options.outputFile = .writable

/-- The failures that nothing catches. -/
inductive Escapes (world : World) (options : Options) : Failure → Prop
  | lookup {message : Text} : LookupFails world (sources options) message →
      Escapes world options (.fileSystem message)
  | directory {message : Text} : (∀ source ∈ sources options, Found world source.2) →
      world.outputFault = some message → Escapes world options (.fileSystem message)
  | template : Prepared world options → Garbled world (options.template.getD []) →
      Escapes world options .notText
  | rendered {template : Text} : Prepared world options →
      Reads world (options.template.getD []) template →
      Garbled world (options.rendered.getD []) → Escapes world options .notText
  | record {template rendered name : Text} {failure : Failure} : Prepared world options →
      Reads world (options.template.getD []) template →
      Reads world (options.rendered.getD []) rendered →
      recordName? options = some name → LoadFails world name failure →
      Escapes world options failure
  | pattern {template rendered : Text} {record : Option Record} {message : Text} :
      Prepared world options → Reads world (options.template.getD []) template →
      Reads world (options.rendered.getD []) rendered →
      RecordReads world (recordName? options) record → world.patternFault = some message →
      Escapes world options (.invalidPattern message)
  | comparison {template rendered : Text} {record : Option Record} {e : Extraction} :
      Extracts world options template rendered record e → ¬ Fits world record e →
      Escapes world options .tooDeep
  | report {template rendered : Text} {record : Option Record} {e : Extraction}
      {failure : Failure} : Ready world options template rendered record e →
      writeFailure? world options.format record
        (report e (comparison world options record e)) = some failure →
      Escapes world options failure

/-! ## Checking and reading the sources -/

section Reading

variable (world : World)

theorem meets_checkSource (label name : Text) :
    (checkSource world label name).Meets (fun _ => Found world name) fun failure =>
      ∃ message, world.input name = .unknown message ∧ failure = .fileSystem message := by
  unfold checkSource Found
  cases h : world.input name with
  | missing =>
      refine (Stage.Meets.of_failed rfl ?_).congr (by simp) (by simp)
      rw [List.append_assoc, List.append_assoc]
      exact told_append (by decide) _
  | unknown message => exact (Stage.Meets.of_escaped rfl).congr (by simp) (by simp)
  | _ => exact (Stage.meets_say ..).congr (by simp) (by simp)

theorem lookupFails_cons {source : Text × Text} {rest : List (Text × Text)} {message : Text} :
    LookupFails world (source :: rest) message ↔ world.input source.2 = .unknown message ∨
      Found world source.2 ∧ LookupFails world rest message := by
  constructor
  · rintro ⟨front, failing, behind, heq, hfront, hfailing⟩
    cases front with
    | nil =>
        cases heq
        exact .inl hfailing
    | cons first front =>
        cases heq
        obtain ⟨hfirst, hfront⟩ := List.forall_mem_cons.mp hfront
        exact .inr ⟨hfirst, front, failing, behind, rfl, hfront, hfailing⟩
  · rintro (h | ⟨hfound, front, failing, behind, rfl, hfront, hfailing⟩)
    · exact ⟨[], source, rest, rfl, List.forall_mem_nil _, h⟩
    · exact ⟨source :: front, failing, behind, rfl, List.forall_mem_cons.mpr ⟨hfound, hfront⟩,
        hfailing⟩

theorem meets_checkSources (named : List (Text × Text)) :
    (checkSources world named).Meets (fun _ => ∀ source ∈ named, Found world source.2)
      fun failure => ∃ message, LookupFails world named message ∧
        failure = .fileSystem message := by
  induction named with
  | nil => exact Stage.meets_pass.congr (by simp) (by simp [LookupFails])
  | cons source rest ih =>
      refine ((meets_checkSource world source.1 source.2).bind fun _ _ => ih).congr (by simp) ?_
      intro failure
      simp only [lookupFails_cons, or_and_right, exists_or, and_assoc, exists_const,
        exists_and_left]

theorem meets_checkSurroundings (options : Options) :
    (checkSurroundings world options).Meets (fun _ => Prepared world options) fun failure =>
      ∃ message, failure = .fileSystem message ∧ (LookupFails world (sources options) message ∨
        (∀ source ∈ sources options, Found world source.2) ∧
          world.outputFault = some message) := by
  unfold checkSurroundings
  refine (Stage.meets_say ..).skip <| (Stage.meets_say ..).skip <|
    ((meets_checkSources world (sources options)).bind fun _ _ =>
      (Stage.meets_barring _).bind fun _ _ => Stage.meets_say ..).congr ?_ ?_
  · simp [Prepared]
  · intro failure
    simp only [Option.map_eq_some_iff]
    constructor
    · rintro (⟨message, hfails, rfl⟩ | ⟨-, hfound, ⟨message, hfault, rfl⟩ | ⟨-, -, h⟩⟩)
      · exact ⟨message, rfl, .inl hfails⟩
      · exact ⟨message, rfl, .inr ⟨hfound, hfault⟩⟩
      · exact h.elim
    · rintro ⟨message, rfl, hfails | ⟨hfound, hfault⟩⟩
      · exact .inl ⟨message, hfails, rfl⟩
      · exact .inr ⟨(), hfound, .inl ⟨message, hfault, rfl⟩⟩

theorem meets_readBytes {lead : Text} (hlead : text "Error" <+: lead) (name : Text) :
    (readBytes world lead name).Meets (fun bytes => world.input name = .file bytes)
      fun _ => False := by
  unfold readBytes
  cases h : world.input name with
  | file bytes => exact (Stage.Meets.of_ok rfl).congr (by simp [eq_comm]) (by simp)
  | _ => exact (Stage.Meets.of_failed rfl (told_append hlead _)).congr (by simp) (by simp)

theorem meets_readText (name : Text) :
    (readText world name).Meets (Reads world name)
      fun failure => failure = .notText ∧ Garbled world name := by
  refine (@Stage.Meets.bind ByteArray Text _ _ _ _ (fun bytes t => decoded? bytes = some t)
    (fun bytes failure => failure = .notText ∧ decoded? bytes = none)
    (meets_readBytes world (by decide) name) fun bytes _ => ?_).congr ?_ ?_
  · cases hd : decoded? bytes with
    | none => exact (Stage.Meets.of_escaped rfl).congr (by simp) (by simp)
    | some t => exact (Stage.Meets.of_ok rfl).congr (by simp [eq_comm]) (by simp)
  · exact fun t => Iff.rfl
  · intro failure
    simp only [false_or, Garbled]
    constructor
    · rintro ⟨bytes, hbytes, rfl, hd⟩
      exact ⟨rfl, bytes, hbytes, hd⟩
    · rintro ⟨rfl, bytes, hbytes, hd⟩
      exact ⟨bytes, hbytes, rfl, hd⟩

theorem meets_readRecord (name : Text) :
    (readRecord world name).Meets (fun record => RecordReads world (some name) (some record))
      (LoadFails world name) := by
  refine (@Stage.Meets.bind ByteArray Record _ _ _ _
    (fun bytes record => (world.load bytes).record? = some record)
    (fun bytes failure => world.load bytes = .failed failure)
    (meets_readBytes world (by decide) name) fun bytes _ => ?_).congr ?_ ?_
  · cases hload : world.load bytes with
    | empty => exact (Stage.Meets.of_ok rfl).congr (by simp [Loaded.record?, eq_comm]) (by simp)
    | record r => exact (Stage.Meets.of_ok rfl).congr (by simp [Loaded.record?, eq_comm]) (by simp)
    | other =>
        exact (Stage.Meets.of_failed rfl (told_append (by decide) _)).congr
          (by simp [Loaded.record?]) (by simp)
    | malformed message =>
        exact (Stage.Meets.of_failed rfl (told_append (by decide) _)).congr
          (by simp [Loaded.record?]) (by simp)
    | failed failure =>
        exact (Stage.Meets.of_escaped rfl).congr (by simp [Loaded.record?]) (by simp [eq_comm])
  · intro record
    constructor
    · rintro ⟨bytes, hbytes, hrecord⟩
      exact .named hbytes hrecord
    · rintro (_ | ⟨hbytes, hrecord⟩)
      exact ⟨_, hbytes, hrecord⟩
  · intro failure
    exact or_iff_right id

theorem meets_readNamedRecord (options : Options) :
    (readNamedRecord world options).Meets (RecordReads world (recordName? options))
      fun failure => ∃ name ∈ recordName? options, LoadFails world name failure := by
  unfold readNamedRecord
  split
  · next c r heq =>
      have hname : recordName? options = some (c :: r) := by simp [recordName?, heq]
      refine ((meets_readRecord world (c :: r)).bind fun record _ =>
        (Stage.meets_say ..).skip (Stage.meets_pure (some record))).congr ?_ ?_
      · intro found
        rw [hname]
        constructor
        · rintro ⟨record, hrecord, rfl⟩
          exact hrecord
        · intro hfound
          cases hfound with
          | named hbytes hrecord => exact ⟨_, .named hbytes hrecord, rfl⟩
      · simp [hname]
  · next hnone =>
      have hname : recordName? options = none := by
        unfold recordName?
        cases h : options.record with
        | none => rfl
        | some name =>
            cases name with
            | nil => rfl
            | cons c r => exact absurd h (hnone c r)
      refine (Stage.Meets.of_ok rfl).congr ?_ (by simp [hname])
      intro found
      rw [hname]
      constructor
      · rintro rfl
        exact .unnamed
      · intro hfound
        cases hfound
        rfl

theorem meets_readSources (options : Options) :
    (readSources world options).Meets
      (fun sources => Reads world (options.template.getD []) sources.template ∧
        Reads world (options.rendered.getD []) sources.rendered ∧
        RecordReads world (recordName? options) sources.record)
      fun failure => (failure = .notText ∧ Garbled world (options.template.getD [])) ∨
        ∃ template, Reads world (options.template.getD []) template ∧
          ((failure = .notText ∧ Garbled world (options.rendered.getD [])) ∨
            ∃ rendered, Reads world (options.rendered.getD []) rendered ∧
              ∃ name ∈ recordName? options, LoadFails world name failure) := by
  unfold readSources
  refine (Stage.meets_say ..).skip <| ((meets_readText world _).bind fun template _ =>
    (meets_readText world _).bind fun rendered _ =>
      (Stage.meets_say ..).skip <| (Stage.meets_say ..).skip <|
        (meets_readNamedRecord world options).bind fun record _ => Stage.meets_pure _).congr ?_ ?_
  · rintro ⟨template, rendered, record⟩
    constructor
    · rintro ⟨t, ht, r, hr, found, hfound, heq⟩
      cases heq
      exact ⟨ht, hr, hfound⟩
    · rintro ⟨ht, hr, hfound⟩
      exact ⟨_, ht, _, hr, _, hfound, rfl⟩
  · intro failure
    simp only [and_false, exists_const, or_false]

end Reading

/-! ## Extracting, comparing and reporting -/

section Reporting

variable (world : World) (options : Options)

theorem exists_lenient (settings : Settings) (placement : Placement) (template rendered : Text) :
    ∃ e, Extraction.lenient settings { placement } template rendered = .ok e := by
  have hanswering : Extractors.Answering [] := by
    intro name extractor content hget
    simp at hget
  obtain ⟨e, he⟩ := @exists_extract_of_answering settings { placement } (some false) hanswering rfl
    template rendered
  obtain ⟨e, he, -⟩ := exists_of_bind_eq_ok he
  exact ⟨e, he⟩

theorem meets_extractData (sources : Sources) :
    (extractData world options sources).Meets
      (fun e => world.patternFault = none ∧
        extracted world options sources.template sources.rendered = .ok e)
      fun failure => ∃ message, world.patternFault = some message ∧
        failure = .invalidPattern message := by
  obtain ⟨e, he⟩ := exists_lenient world.settings
    (options.placement.getD world.settings.placement) sources.template sources.rendered
  have hextracted : extracted world options sources.template sources.rendered =
      e.demand (options.strict || world.settings.strict) := by
    unfold extracted extract
    rw [he]
    rfl
  have hlabels : (e.unmatched.forM fun label => Stage.say 2 (text "Unmatched: " ++ label)).Meets
      (fun _ => True) fun _ => False := Stage.meets_forM (fun label => Stage.meets_say ..) _
  unfold extractData
  dsimp only
  rw [he, hextracted]
  refine (Stage.meets_say ..).skip ?_
  refine (@Stage.Meets.bind Unit Extraction _ _ _ _
    (fun _ e' => e.demand (options.strict || world.settings.strict) = .ok e') (fun _ _ => False)
    (Stage.meets_barring _) fun _ _ => ?_).congr ?_ ?_
  · refine Stage.Meets.of_ok_bind rfl <| (Stage.meets_trace _).skip ?_
    cases hdemand : e.demand (options.strict || world.settings.strict) with
    | error failure =>
        refine (Stage.Meets.of_failed rfl ⟨_, _, rfl, .inr ?_⟩).congr (by simp) (by simp)
        exact List.IsPrefix.trans (by decide) (List.prefix_append ..)
    | ok result =>
        obtain ⟨rfl, -⟩ := Extraction.of_demand hdemand
        exact (Stage.meets_say ..).skip <|
          hlabels.skip <| (Stage.meets_pure _).congr (by simp [eq_comm]) (by simp)
  · simp
  · simp [eq_comm]

theorem meets_compare (record : Option Record) (e : Extraction) :
    (compare world options record e).Meets
      (fun c => Fits world record e ∧ c = comparison world options record e)
      fun failure => ¬ Fits world record e ∧ failure = .tooDeep := by
  cases record with
  | none =>
      exact ((Stage.meets_say ..).skip (Stage.meets_pure none)).congr (by simp [Fits, comparison])
        (by simp [Fits])
  | some r =>
      have hfits : Fits world (some r) e ↔
          (world.fits (.map r.entries) && world.fits (.map e.data)) = true := by simp [Fits]
      refine ((Stage.meets_say ..).skip <| (Stage.meets_barring _).bind fun _ _ =>
        (Stage.meets_trace _).skip <|
          (Stage.meets_say ..).skip (Stage.meets_pure (some _))).congr ?_ ?_
      · simp [hfits, comparison]
      · rw [hfits]
        cases world.fits (.map r.entries) && world.fits (.map e.data) <;> simp [eq_comm]

theorem meets_writeReport (record : Option Record) (v : Value) :
    (writeReport world options record v).Meets
      (fun _ => world.target options.outputFile = .writable ∧
        writeFailure? world options.format record v = none)
      fun failure => world.target options.outputFile = .writable ∧
        writeFailure? world options.format record v = some failure := by
  unfold writeReport
  cases h : world.target options.outputFile with
  | writable =>
      exact ((Stage.meets_barring _).bind fun _ _ => Stage.meets_say ..).congr (by simp) (by simp)
  | _ => exact (Stage.Meets.of_failed rfl (told_append (by decide) _)).congr (by simp) (by simp)

theorem meets_summarize (e : Extraction) (comparison : Option Comparison) :
    (summarize world options e comparison).Meets (fun _ => True) fun _ => False := by
  unfold summarize
  refine (Stage.meets_say ..).skip <| (Stage.meets_say ..).skip <| (Stage.meets_say ..).skip ?_
  cases comparison with
  | none =>
      dsimp only
      split
      · exact Stage.meets_pass.skip Stage.meets_pass
      · exact (Stage.meets_say ..).skip Stage.meets_pass
  | some c =>
      dsimp only
      split
      · exact Stage.meets_pass.skip (Stage.meets_say ..)
      · exact (Stage.meets_say ..).skip (Stage.meets_say ..)

end Reporting

/-! ## Whole runs -/

theorem found_of_file {world : World} {name : Text} {bytes : ByteArray}
    (h : world.input name = .file bytes) : Found world name := by
  simp [Found, h]

theorem Reads.found {world : World} {name t : Text} (h : Reads world name t) : Found world name :=
  h.elim fun _ hbytes => found_of_file hbytes.1

theorem Extracts.prepared {world : World} {options : Options} {template rendered : Text}
    {record : Option Record} {e : Extraction}
    (h : Extracts world options template rendered record e) : Prepared world options := by
  refine ⟨fun source hsource => ?_, h.outputFault_eq⟩
  unfold sources at hsource
  rcases List.mem_cons.mp hsource with rfl | hsource
  · exact h.template_reads.found
  · rcases List.mem_cons.mp hsource with rfl | hsource
    · exact h.rendered_reads.found
    · have hrecord := h.record_reads
      unfold recordName? at hrecord
      split at hsource
      · next c r heq =>
          obtain rfl := List.mem_singleton.mp hsource
          rw [heq, Option.filter_some, if_pos (by simp)] at hrecord
          cases hrecord with
          | named hbytes _ => exact found_of_file hbytes
      · simp at hsource

theorem meets_stages (world : World) (options : Options) :
    (stages world options).Meets
      (fun v => ∃ template rendered record e, Ready world options template rendered record e ∧
        v = report e (comparison world options record e) ∧
        writeFailure? world options.format record v = none)
      (Escapes world options) := by
  refine ((meets_checkSurroundings world options).bind fun _ _ =>
    (meets_readSources world options).bind fun sources _ =>
    (meets_extractData world options sources).bind fun e _ =>
    (meets_compare world options sources.record e).bind fun compared _ =>
    (meets_writeReport world options sources.record (report e compared)).bind fun _ _ =>
    (meets_summarize world options e compared).skip
      (Stage.meets_pure (report e compared))).congr ?_ ?_
  · intro v
    constructor
    · rintro ⟨-, ⟨-, houtput⟩, s, ⟨ht, hr, hrecord⟩, e, ⟨hpattern, he⟩, c, ⟨hfits, rfl⟩, -,
        ⟨htarget, hwritten⟩, rfl⟩
      exact ⟨_, _, _, e, ⟨⟨houtput, ht, hr, hrecord, hpattern, he⟩, hfits, htarget⟩, rfl, hwritten⟩
    · rintro ⟨template, rendered, record, e, hready, rfl, hwritten⟩
      exact ⟨(), hready.prepared, ⟨template, rendered, record⟩,
        ⟨hready.template_reads, hready.rendered_reads, hready.record_reads⟩, e,
        ⟨hready.patternFault_eq, hready.extracted_eq⟩, _, ⟨hready.fits, rfl⟩, (),
        ⟨hready.target_eq, hwritten⟩, rfl⟩
  · intro failure
    constructor
    · rintro (⟨message, rfl, hfails | ⟨hfound, hfault⟩⟩ | ⟨-, hprepared, hread |
        ⟨s, ⟨ht, hr, hrecord⟩, ⟨message, hpattern, rfl⟩ | ⟨e, ⟨hpattern, he⟩, ⟨hdeep, rfl⟩ |
          ⟨c, ⟨hfits, rfl⟩, ⟨htarget, hwritten⟩ | ⟨-, -, h⟩⟩⟩⟩⟩)
      · exact .lookup hfails
      · exact .directory hfound hfault
      · rcases hread with ⟨rfl, ht⟩ | ⟨t, ht, ⟨rfl, hr⟩ | ⟨r, hr, name, hname, hfails⟩⟩
        · exact .template hprepared ht
        · exact .rendered hprepared ht hr
        · exact .record hprepared ht hr hname hfails
      · exact .pattern hprepared ht hr hrecord hpattern
      · exact .comparison ⟨hprepared.2, ht, hr, hrecord, hpattern, he⟩ hdeep
      · exact .report ⟨⟨hprepared.2, ht, hr, hrecord, hpattern, he⟩, hfits, htarget⟩ hwritten
      · exact h.elim
    · intro h
      cases h with
      | lookup hfails => exact .inl ⟨_, rfl, .inl hfails⟩
      | directory hfound hfault => exact .inl ⟨_, rfl, .inr ⟨hfound, hfault⟩⟩
      | template hprepared ht => exact .inr ⟨(), hprepared, .inl (.inl ⟨rfl, ht⟩)⟩
      | rendered hprepared ht hr =>
          exact .inr ⟨(), hprepared, .inl (.inr ⟨_, ht, .inl ⟨rfl, hr⟩⟩)⟩
      | record hprepared ht hr hname hfails =>
          exact .inr ⟨(), hprepared, .inl (.inr ⟨_, ht, .inr ⟨_, hr, _, hname, hfails⟩⟩)⟩
      | @pattern template rendered record message hprepared ht hr hrecord hpattern =>
          exact .inr ⟨(), hprepared, .inr ⟨⟨template, rendered, record⟩, ⟨ht, hr, hrecord⟩,
            .inl ⟨message, hpattern, rfl⟩⟩⟩
      | @comparison template rendered record e hextracts hdeep =>
          exact .inr ⟨(), hextracts.prepared, .inr ⟨⟨template, rendered, record⟩,
            ⟨hextracts.template_reads, hextracts.rendered_reads, hextracts.record_reads⟩, .inr ⟨e,
            ⟨hextracts.patternFault_eq, hextracts.extracted_eq⟩, .inl ⟨hdeep, rfl⟩⟩⟩⟩
      | @report template rendered record e _ hready hwritten =>
          exact .inr ⟨(), hready.prepared, .inr ⟨⟨template, rendered, record⟩,
            ⟨hready.template_reads, hready.rendered_reads, hready.record_reads⟩, .inr ⟨e,
            ⟨hready.patternFault_eq, hready.extracted_eq⟩, .inr ⟨_, ⟨hready.fits, rfl⟩,
            .inl ⟨hready.target_eq, hwritten⟩⟩⟩⟩⟩

theorem run_eq_error_iff {world : World} {options : Options} {failure : Failure} :
    run world options = .error failure ↔ Escapes world options failure := by
  rw [← (meets_stages world options).escaped_iff]
  unfold run
  dsimp only
  cases (stages world options).result with
  | ok v => simp
  | error halt => cases halt <;> simp

/-- A template of one byte that is no text ends the run with a failure that nothing catches. -/
theorem run_not_text :
    let world : World :=
      { settings := {}, inputName := text "in", outputName := text "out"
        input := fun _ => .file ⟨#[0xff]⟩, load := fun _ => .failed .notText
        target := fun _ => .writable }
    run world { template := some (text "t"), rendered := some (text "r") } = .error .notText := by
  intro world
  have hbytes : decoded? ⟨#[0xff]⟩ = none := by
    rw [← Option.isNone_iff_eq_none]
    decide +kernel
  exact run_eq_error_iff.mpr (.template ⟨by simp [Found, world], rfl⟩ ⟨_, rfl, hbytes⟩)

/-- A part of the report. -/
def Outcome.part? (o : Outcome) (name : Text) : Option Value :=
  (o.report.bind Value.entries?).bind fun parts => Entries.get? parts name

/-- The run ends well: the report holds what was extracted and, if a record is given, how the data
differs from it and what the two make together. -/
structure Outcome.Reports (o : Outcome) (world : World) (options : Options)
    (record : Option Record) (e : Extraction) : Prop where
  exitCode_eq : o.exitCode = 0
  errors_eq : o.errors = []
  data_eq : o.part? (text "data") = some (.map e.data)
  confidence_eq : o.part? (text "confidence") = some (.float e.confidence)
  unmatched_eq : o.part? (text "unmatched") = some (.list (e.unmatched.map .text))
  given : record.isSome = (recordName? options).isSome
  changes_eq : o.part? (text "changes") =
    record.map fun r => changesValue (Difference.between none (.map r.entries) (.map e.data))
  merged_eq : o.part? (text "merged") =
    record.map fun r => applyExtracted (options.arrayMerge.getD world.settings.arrayMerge) none
      (.map r.entries) (.map e.data)
  complete : (options.strict || world.settings.strict) = true → e.unmatched = []

theorem RecordReads.isSome_eq {world : World} {name : Option Text} {record : Option Record}
    (h : RecordReads world name record) : record.isSome = name.isSome := by
  cases h <;> rfl

theorem Ready.unmatched_eq_nil {world : World} {options : Options} {template rendered : Text}
    {record : Option Record} {e : Extraction} (h : Ready world options template rendered record e)
    (hstrict : (options.strict || world.settings.strict) = true) : e.unmatched = [] := by
  obtain ⟨lenient, -, hdemand⟩ := exists_of_bind_eq_ok h.extracted_eq
  obtain ⟨rfl, hcomplete⟩ := Extraction.of_demand hdemand
  exact hcomplete hstrict

theorem Ready.reports {world : World} {options : Options} {template rendered : Text}
    {record : Option Record} {e : Extraction} (h : Ready world options template rendered record e)
    (log : List Text) :
    Outcome.Reports ⟨0, [], log, some (report e (comparison world options record e))⟩ world options
      record e := by
  refine ⟨rfl, rfl, rfl, rfl, rfl, h.record_reads.isSome_eq, ?_, ?_, h.unmatched_eq_nil⟩
  · cases record <;> rfl
  · cases record <;> rfl

/-- A run ends with a report, or with errors for the user and none, unless a failure escapes.  The
report is written where everything is read and in reach, and holds what the operations of the
library make of the texts and the record. -/
theorem run_ends (world : World) (options : Options) :
    (∃ failure, run world options = .error failure ∧ Escapes world options failure) ∨
      ∃ o, run world options = .ok o ∧ (∀ failure, ¬ Escapes world options failure) ∧
        ((∃ template rendered record e, Ready world options template rendered record e ∧
            o.Reports world options record e) ∨
          (∀ template rendered record e, ¬ Ready world options template rendered record e) ∧
            o.exitCode = 1 ∧ Told o.errors ∧ o.report = none) := by
  have hmeets := meets_stages world options
  cases hrun : run world options with
  | error failure => exact .inl ⟨failure, rfl, run_eq_error_iff.mp hrun⟩
  | ok o =>
      have hescapes : ∀ failure, ¬ Escapes world options failure := by
        intro failure h
        rw [← run_eq_error_iff, hrun] at h
        simp at h
      refine .inr ⟨o, rfl, hescapes, ?_⟩
      unfold run at hrun
      dsimp only at hrun
      cases hresult : (stages world options).result with
      | ok v =>
          rw [hresult] at hrun
          cases hrun
          obtain ⟨template, rendered, record, e, hready, rfl, -⟩ := (hmeets.ok_iff v).mp hresult
          exact .inl ⟨template, rendered, record, e, hready, hready.reports _⟩
      | error halt =>
          cases halt with
          | escaped failure => exact absurd ((hmeets.escaped_iff failure).mp hresult) (hescapes _)
          | failed errors =>
              rw [hresult] at hrun
              cases hrun
              refine .inr ⟨?_, rfl, hmeets.told errors hresult, rfl⟩
              intro template rendered record e hready
              cases hwritten : writeFailure? world options.format record
                  (report e (comparison world options record e)) with
              | none =>
                  have hok := (hmeets.ok_iff _).mpr
                    ⟨template, rendered, record, e, hready, rfl, hwritten⟩
                  rw [hresult] at hok
                  simp at hok
              | some failure => exact hescapes _ (.report hready hwritten)

/-- A record in block notation is merged with the data, once the library for YAML has loaded it. -/
example :
    let record : Entries Value := [(text "post", .map [(text "title", .text (text "Old Title")),
      (text "tags", .text (text "a")), (text "views", .int 3)])]
    let bytes (name : Text) : ByteArray :=
      if name = text "post.mdx" then
        "# \x7bpost.title\x7d\n\n**Tags:** \x7bpost.tags\x7d".toUTF8
      else if name = text "post.md" then "# Edited Title\n\n**Tags:** a, b".toUTF8
      else "post:\n  title: Old Title\n  tags: a\n  views: 3\n".toUTF8
    let world : World :=
      { settings := {}, inputName := text "in", outputName := text "out"
        input := fun name => .file (bytes name), load := fun _ => .record ⟨record, true⟩
        target := fun _ => .writable }
    let options : Options :=
      { template := some (text "post.mdx"), rendered := some (text "post.md")
        record := some (text "post.yaml") }
    ((run world options).toOption.bind (Outcome.part? · (text "merged"))).map Json.compact =
      some (text ("\x7b\"post\":\x7b\"title\":\"Edited Title\"," ++
        "\"tags\":\"a, b\",\"views\":3\x7d\x7d")) := by
  decide +kernel

end CommandLine

end InverseTemplate
