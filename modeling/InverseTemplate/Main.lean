/-
# The program

The outer layer of the command line: it looks at the files, lets the run decide everything, and
carries out the outcome.  Whether the report can be written shows only when it is written, so a
run is tried with a free target first and again with what turned out to stand in the way.

Records are read in the flow notation, and reports are written as JSON, which is YAML too.
-/
import InverseTemplate.CommandLine.Run
import InverseTemplate.Flow.Reader

namespace InverseTemplate

namespace CommandLine

/-- The path of a name in a directory. -/
def pathOf (directory : String) (name : Text) : String :=
  String.ofList (located directory.toList name)

/-- What stands at a path. -/
def entryAt (path : String) : IO Entry := do
  try
    return .file (← IO.FS.readBinFile path)
  catch error =>
    match error with
    | .noFileOrDirectory .. => return .missing
    | .inappropriateType .. => return .directory
    | _ => return .unreadable (toString error).toList

/-- Makes the output directory, and tells why it could not. -/
def makeDirectory (path : String) : IO (Option Text) := do
  try
    IO.FS.createDirAll path
    return none
  catch error => return some (toString error).toList

/-- What stood in the way of writing a file, if anything did. -/
def putReport (path : String) (content : Text) : IO Target := do
  try
    IO.FS.writeFile path (String.ofList content)
    return .writable
  catch error =>
    match error with
    | .noFileOrDirectory .. => return .unreachable
    | .inappropriateType .. => return .directory
    | _ => return .refused (toString error).toList

/-- Shows an outcome to the user. -/
def present (outcome : Outcome) : IO UInt32 := do
  for line in outcome.log do IO.eprintln (String.ofList line)
  for line in outcome.errors do IO.eprintln (String.ofList line)
  return UInt32.ofNat outcome.exitCode

/-- Shows a failure that nothing caught. -/
def presentFailure (failure : Failure) : IO UInt32 := do
  IO.eprintln (String.ofList failure.message)
  return 1

/-- Runs the program in two directories. -/
def perform (input output : String) (options : Options) : IO UInt32 := do
  let entries ← (sources options).mapM fun (_, name) => do
    return (name, ← entryAt (pathOf input name))
  let isMissing : Text × Entry → Bool
    | (_, .missing) => true
    | _ => false
  let outputFault ← if entries.any isMissing then pure none else makeDirectory output
  let world (target : Target) : World :=
    { settings := {}
      inputName := input.toList
      outputName := output.toList
      input := fun name => ((entries.find? (·.1 = name)).map Prod.snd).getD .missing
      load := Flow.load
      outputFault
      target := fun _ => target }
  match run (world .writable) options with
  | .error failure => presentFailure failure
  | .ok outcome =>
      match outcome.report with
      | none => present outcome
      | some report =>
          let content := options.format.write report
          match ← putReport (pathOf output options.outputFile) content with
          | .writable => present outcome
          | obstacle =>
              match run (world obstacle) options with
              | .error failure => presentFailure failure
              | .ok outcome => present outcome

/-- How the program is called. -/
def usage : String :=
  "usage: INPUTDIR OUTPUTDIR --template NAME --rendered NAME [--original NAME] [--strict]\n" ++
  "  [--arrayMerge replace|append|prepend] [--placement bindings|root|component]\n" ++
  "  [--outputFile NAME] [--outputFormat json|yaml] [-v]"

end CommandLine

end InverseTemplate

/-- Extracts the data of a rendered document and writes the report. -/
def main (args : List String) : IO UInt32 := do
  match args with
  | input :: output :: line =>
      match InverseTemplate.CommandLine.Options.ofLine (line.map String.toList) with
      | .ok options => InverseTemplate.CommandLine.perform input output options
      | .error .informed => do
          IO.println InverseTemplate.CommandLine.usage
          return 0
      | .error .unusable => do
          IO.eprintln InverseTemplate.CommandLine.usage
          return 2
  | _ => do
      IO.eprintln InverseTemplate.CommandLine.usage
      return 2
