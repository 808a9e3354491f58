/-
# A run of the program

A run reads a template, a text rendered from it and, if there is one, the record to update;
extracts the data; compares it with the record and merges the two; and writes a report.  It goes
through stages, each of which adds to the log and may end the run with an error for the user.

A run sees the world only through what the file system answers, what the library for YAML makes of
a record and of a report, and how far it can descend into a value, so it is a function of these
answers (`World`), whatever they are.  Its outcome is everything that it does: the exit code, the
errors, the log as far as the verbosity lets it through, and the report.
-/
import InverseTemplate.CommandLine.Options
import InverseTemplate.CommandLine.Source
import InverseTemplate.Extraction
import InverseTemplate.Value.Json

namespace InverseTemplate

namespace CommandLine

/-! ## Stages -/

/-- A line of the log, and the verbosity from which on it is shown. -/
structure LogLine where
  level : Nat
  message : Text

/-- Why a run ends early. -/
inductive Halt where
  /-- With errors for the user. -/
  | failed (errors : List Text)
  /-- With a failure that nothing catches. -/
  | escaped (failure : Failure)

/-- A part of a run: what it logs, and its result unless it ends the run. -/
structure Stage (α : Type) where
  log : List LogLine
  result : Except Halt α

namespace Stage

/-- The stage that only has a result. -/
def pure {α : Type} (a : α) : Stage α := ⟨[], .ok a⟩

/-- One stage after another. -/
def bind {α β : Type} (s : Stage α) (next : α → Stage β) : Stage β :=
  match s.result with
  | .ok a => ⟨s.log ++ (next a).log, (next a).result⟩
  | .error halt => ⟨s.log, .error halt⟩

instance : Monad Stage where
  pure := Stage.pure
  bind := Stage.bind

/-- Logs a message. -/
def say (level : Nat) (message : Text) : Stage Unit := ⟨[⟨level, message⟩], .ok ()⟩

/-- Logs events. -/
def trace (events : List Event) : Stage Unit :=
  ⟨events.map fun event => ⟨event.level, event.message⟩, .ok ()⟩

/-- Ends the run with errors. -/
def fail {α : Type} (errors : List Text) : Stage α := ⟨[], .error (.failed errors)⟩

/-- The result of something that may fail with a failure that nothing catches. -/
def lift {α : Type} : Except Failure α → Stage α
  | .ok a => Stage.pure a
  | .error failure => ⟨[], .error (.escaped failure)⟩

/-- Goes on unless there is a failure, which nothing catches. -/
def barring : Option Failure → Stage Unit
  | none => Stage.pure ()
  | some failure => Stage.lift (.error failure)

end Stage

/-! ## The world of a run -/

/-- What would stand in the way of the report. -/
inductive Target where
  | writable
  | directory
  /-- The directory that it should stand in is missing. -/
  | unreachable
  /-- The system refuses to open it or to take all of it, in these words. -/
  | refused (message : Text)

/-- What a run can see. -/
structure World where
  settings : Settings
  /-- What is wrong with the pattern for section breaks, if it is no regular expression. -/
  patternFault : Option Text := none
  /-- How the input directory is shown. -/
  inputName : Text
  /-- How the output directory is shown. -/
  outputName : Text
  /-- What stands at a name in the input directory. -/
  input : Text → Entry
  /-- What the library for YAML makes of a record. -/
  load : ByteArray → Loaded
  /-- Why the system refuses to make the output directory, if it does. -/
  outputFault : Option Text := none
  /-- What stands in the way of a report of that name in the output directory. -/
  target : Text → Target
  /-- Can the value be walked to its bottom? -/
  fits : Value → Bool := fun _ => true
  /-- What keeps a report from being written in a format that knows all that is in it, if anything
  does.  What the library for YAML knows is up to that library. -/
  dumpFailure : ReportFormat → Value → Option Failure := fun _ _ => none

/-- Nothing stands where a file is wanted. -/
def noSuchFile (path : Text) : Text :=
  text "[Errno 2] No such file or directory: " ++ Text.quoted path

/-- A directory stands where a file is wanted. -/
def isADirectory (path : Text) : Text := text "[Errno 21] Is a directory: " ++ Text.quoted path

/-! ## Checking and reading the sources -/

/-- What a verbose run begins with. -/
def banner : Text :=
  text ("\n                                _\n" ++
    "  _   _ _ __  _ __ ___ _ __   __| | ___ _ __\n" ++
    " | | | | '_ \\| '__/ _ \\ '_ \\ / _\x60 |/ _ \\ '__|\n" ++
    " | |_| | | | | | |  __/ | | | (_| |  __/ |\n" ++
    "  \\__,_|_| |_|_|  \\___|_| |_|\\__,_|\\___|_|\n\n" ++
    "  Rendered text back to data\n")

/-- The names of the sources with what they are. -/
def sources (options : Options) : List (Text × Text) :=
  let record := match options.record with
    | some (c :: r) => [(text "Original", c :: r)]
    | _ => []
  (text "Template", options.template.getD []) ::
    (text "Rendered", options.rendered.getD []) :: record

/-- Checks that a source is there. -/
def checkSource (world : World) (label name : Text) : Stage Unit :=
  let path := located world.inputName name
  match world.input name with
  | .missing => Stage.fail [text "Error: " ++ label ++ text " file not found: " ++ path]
  | .unknown message => Stage.lift (.error (.fileSystem message))
  | _ => Stage.say 2 (label ++ text " file: " ++ path)

/-- Checks that all sources are there. -/
def checkSources (world : World) : List (Text × Text) → Stage Unit
  | [] => Stage.pure ()
  | (label, name) :: rest => do
      checkSource world label name
      checkSources world rest

/-- Checks the surroundings of a run. -/
def checkSurroundings (world : World) (options : Options) : Stage Unit := do
  Stage.say 2 banner
  Stage.say 2 (text "Checking environment...")
  checkSources world (sources options)
  Stage.barring (world.outputFault.map .fileSystem)
  Stage.say 2 (text "Output directory: " ++ world.outputName)

/-- The bytes of a file; errors begin with the lead. -/
def readBytes (world : World) (lead name : Text) : Stage ByteArray :=
  let path := located world.inputName name
  match world.input name with
  | .file bytes => Stage.pure bytes
  | .directory => Stage.fail [lead ++ isADirectory path]
  | .missing => Stage.fail [lead ++ noSuchFile path]
  | .unreadable message => Stage.fail [lead ++ message]
  | .unknown message => Stage.fail [lead ++ message]

/-- What errors in the template and the rendered text begin with. -/
def inputLead : Text := text "Error reading input file: "

/-- The text of a file. -/
def readText (world : World) (name : Text) : Stage Text := do
  let bytes ← readBytes world inputLead name
  match decoded? bytes with
  | some t => Stage.pure t
  | none => Stage.lift (.error .notText)

/-- What errors in the record begin with. -/
def recordLead : Text := text "Error reading original record: "

/-- The record to update. -/
def readRecord (world : World) (name : Text) : Stage Record := do
  let bytes ← readBytes world recordLead name
  match world.load bytes with
  | .empty => Stage.pure ⟨[], true⟩
  | .record record => Stage.pure record
  | .other =>
      Stage.fail [text "Error: Original record must be a mapping: " ++
        located world.inputName name]
  | .malformed message => Stage.fail [recordLead ++ message]
  | .failed failure => Stage.lift (.error failure)

/-- The sources of a run. -/
structure Sources where
  template : Text
  rendered : Text
  record : Option Record

/-- Reads the record to update, if one is named. -/
def readNamedRecord (world : World) (options : Options) : Stage (Option Record) :=
  match options.record with
  | some (c :: r) => do
      let record ← readRecord world (c :: r)
      Stage.say 2 (text "Original record has " ++ Text.ofNat record.entries.length ++
        text " top-level keys")
      return some record
  | _ => Stage.pure none

/-- Reads the sources. -/
def readSources (world : World) (options : Options) : Stage Sources := do
  Stage.say 1 (text "Reading sources...")
  let template ← readText world (options.template.getD [])
  let rendered ← readText world (options.rendered.getD [])
  Stage.say 2 (text "Read " ++ Text.ofNat template.length ++ text " template characters")
  Stage.say 2 (text "Read " ++ Text.ofNat rendered.length ++ text " rendered characters")
  return { template, rendered, record := ← readNamedRecord world options }

/-! ## Extracting and comparing -/

/-- The line that tells the confidence. -/
def confidenceLine (e : Extraction) : Text :=
  text "Confidence: " ++ Event.shareText e.confidence

/-- The errors of a strict run that left slots unmatched; a very verbose one shows the pattern. -/
def strictErrors (options : Options) (failure : Failure) (e : Extraction) : List Text :=
  (text "Extraction error: " ++ failure.message) ::
    (if 3 ≤ options.verbosity then [text "Pattern: " ++ e.pattern] else [])

/-- Extracts the data. -/
def extractData (world : World) (options : Options) (sources : Sources) : Stage Extraction := do
  Stage.say 1 (text "Extracting data...")
  Stage.barring (world.patternFault.map .invalidPattern)
  let placement := options.placement.getD world.settings.placement
  let e ← Stage.lift
    (Extraction.lenient world.settings { placement } sources.template sources.rendered)
  Stage.trace e.events
  match e.demand (options.strict || world.settings.strict) with
  | .error failure => Stage.fail (strictErrors options failure e)
  | .ok _ =>
      Stage.say 2 (confidenceLine e)
      e.unmatched.forM fun label => Stage.say 2 (text "Unmatched: " ++ label)
      return e

/-- What a record makes of extracted data. -/
structure Comparison where
  changes : Difference
  merged : Value

/-- Compares the data with the record and merges the two. -/
def compare (world : World) (options : Options) (record : Option Record)
    (e : Extraction) : Stage (Option Comparison) :=
  match record with
  | none => do
      Stage.say 2 (text "No original record; skipping diff")
      return none
  | some ⟨entries, _⟩ => do
      Stage.say 1 (text "Comparing with original record...")
      Stage.barring
        (if world.fits (.map entries) && world.fits (.map e.data) then none else some .tooDeep)
      let policy := options.arrayMerge.getD world.settings.arrayMerge
      let changes := Difference.between none (.map entries) (.map e.data)
      let merged := applyExtracted policy none (.map entries) (.map e.data)
      Stage.trace
        [.compared changes.modified.length changes.removed.length !changes.added.isEmpty,
          .applied policy]
      Stage.say 2 (text "Changes detected: " ++
        (if changes.hasChanges then text "True" else text "False"))
      return some { changes, merged }

/-! ## The report -/

/-- The changes as a part of the report. -/
def changesValue (changes : Difference) : Value :=
  let modified := changes.modified.map fun (path, change) =>
    (path, Value.map [(text "from", change.before), (text "to", change.after)])
  .map [(text "added", .map changes.added), (text "modified", .map modified),
    (text "removed", .list (changes.removed.map .text)),
    (text "has_changes", .bool changes.hasChanges)]

/-- The report of a run. -/
def report (e : Extraction) (comparison : Option Comparison) : Value :=
  let compared := match comparison with
    | some c => [(text "changes", changesValue c.changes), (text "merged", c.merged)]
    | none => []
  .map ([(text "data", Value.map e.data), (text "confidence", .float e.confidence),
    (text "unmatched", .list (e.unmatched.map .text))] ++ compared)

/-- The text of a report.  Every JSON text is YAML too. -/
def ReportFormat.write (format : ReportFormat) (v : Value) : Text :=
  match format with
  | .json => Json.indented 0 v
  | .yaml => Json.compact v

/-- What keeps a report from being written in the format, if anything does. -/
def writeFailure? (world : World) (format : ReportFormat) (record : Option Record) (v : Value) :
    Option Failure :=
  if format = .json && !(record.all Record.encodable && Json.isWritable v) then some .unwritable
  else world.dumpFailure format v

/-- Writes the report. -/
def writeReport (world : World) (options : Options) (record : Option Record) (v : Value) :
    Stage Unit :=
  let path := located world.outputName options.outputFile
  let lead := text "Error writing report: "
  match world.target options.outputFile with
  | .writable => do
      Stage.barring (writeFailure? world options.format record v)
      Stage.say 2 (text "Report written to " ++ path)
  | .directory => Stage.fail [lead ++ isADirectory path]
  | .unreachable => Stage.fail [lead ++ noSuchFile path]
  | .refused message => Stage.fail [lead ++ message]

/-- Tells the user what came out. -/
def summarize (world : World) (options : Options) (e : Extraction)
    (comparison : Option Comparison) : Stage Unit := do
  Stage.say 1 (text "\n✓ Extraction complete!")
  Stage.say 1 (text "  Output: " ++ located world.outputName options.outputFile)
  Stage.say 1 (text "  " ++ confidenceLine e)
  if e.unmatched.isEmpty then Stage.pure ()
  else Stage.say 1 (text "  Unmatched: " ++ List.intercalate (text ", ") e.unmatched)
  match comparison with
  | none => Stage.pure ()
  | some c =>
      Stage.say 1 (text "  Changes: " ++ Text.ofNat c.changes.modified.length ++
        text " modified, " ++ Text.ofNat c.changes.removed.length ++ text " removed")

/-- All stages of a run, with the report for result. -/
def stages (world : World) (options : Options) : Stage Value := do
  checkSurroundings world options
  let sources ← readSources world options
  let e ← extractData world options sources
  let comparison ← compare world options sources.record e
  writeReport world options sources.record (report e comparison)
  summarize world options e comparison
  return report e comparison

/-! ## The outcome -/

/-- Everything that a run does. -/
structure Outcome where
  exitCode : Nat
  errors : List Text
  log : List Text
  /-- The report, if it has been written to its end. -/
  report : Option Value

/-- The lines of a log that a verbosity lets through. -/
def visible (verbosity : Nat) (log : List LogLine) : List Text :=
  (log.filter fun line => line.level ≤ verbosity).map LogLine.message

/-- Runs the program. -/
def run (world : World) (options : Options) : Except Failure Outcome :=
  let s := stages world options
  let log := visible options.verbosity s.log
  match s.result with
  | .ok v => .ok { exitCode := 0, errors := [], log, report := some v }
  | .error (.failed errors) => .ok { exitCode := 1, errors, log, report := none }
  | .error (.escaped failure) => .error failure

end CommandLine

end InverseTemplate
