/-
# Command line options

A word of the command line is a flag or an operand.  Long flags begin with two dashes and may be
cut short as long as only one flag begins that way; a value follows as the next word or behind
an equals sign.  Short flags begin with one dash, and several of them may share it.  What begins
with a dash but looks like a negative number, or holds a blank, is an operand all the same.

The options themselves take no operands.  Words that fit nowhere make the line unusable, but
only at its end, so that a request for help is heard wherever it stands.
-/
import InverseTemplate.Settings
import InverseTemplate.Text.WordChar

namespace InverseTemplate

namespace CommandLine

/-! ## Flags -/

/-- The flags. -/
inductive Flag where
  | help
  | template
  | rendered
  | record
  | strict
  | arrayMerge
  | placement
  | outputFile
  | outputFormat
  | verbosity
  | version
deriving DecidableEq

namespace Flag

/-- All flags. -/
def all : List Flag :=
  [help, template, rendered, record, strict, arrayMerge, placement, outputFile, outputFormat,
    verbosity, version]

/-- The word for a flag, dashes included. -/
def word : Flag → Text
  | help => text "--help"
  | template => text "--template"
  | rendered => text "--rendered"
  | record => text "--original"
  | strict => text "--strict"
  | arrayMerge => text "--arrayMerge"
  | placement => text "--placement"
  | outputFile => text "--outputFile"
  | outputFormat => text "--outputFormat"
  | verbosity => text "--verbosity"
  | version => text "--version"

/-- The flag of a letter. -/
def ofLetter? (c : Char) : Option Flag :=
  if c = 'h' then some help
  else if c = 'v' then some verbosity
  else if c = 'V' then some version
  else none

/-- The flag that a word spells in full. -/
def ofWord? : Text → Option Flag
  | ['-', c] => ofLetter? c
  | w => all.find? (·.word = w)

/-- The flags whose words begin with the given one. -/
def beginningWith (w : Text) : List Flag := all.filter fun flag => w.isPrefixOf flag.word

end Flag

/-! ## Words -/

/-- A word of the command line. -/
inductive Word where
  | operand (t : Text)
  | flag (flag : Flag) (attached : Option Text)
  /-- A flag by its letter, and the letters that share its dash. -/
  | letters (first : Flag) (more : Text)
  | unknown
deriving DecidableEq

/-- Why a command line gives no options. -/
inductive Stop where
  /-- Help or the version was asked for. -/
  | informed
  /-- The line cannot be used. -/
  | unusable
deriving DecidableEq

/-- Does the text behind a dash make a negative number: digits, perhaps with a point in front of
the last of them?  A line end behind it makes no difference. -/
def isNumber (t : Text) : Bool :=
  match List.splitOn '.' (if t.getLast? = some '\n' then t.dropLast else t) with
  | [whole] => !whole.isEmpty && whole.all Text.isDigit
  | [whole, places] => whole.all Text.isDigit && !places.isEmpty && places.all Text.isDigit
  | _ => false

/-- A word split at its first equals sign. -/
def attached? (w : Text) : Option (Text × Text) :=
  let lead := w.takeWhile fun c => c ≠ '='
  match w.drop lead.length with
  | _ :: value => some (lead, value)
  | [] => none

/-- A word that begins with a dash and spells no flag in full, with or without a value behind an
equals sign. -/
def abbreviated (w : Text) : Except Stop Word :=
  let (lead, value) : Text × Option Text := match attached? w with
    | some (lead, value) => (lead, some value)
    | none => (w, none)
  let fallback : Word :=
    if isNumber (w.drop 1) || w.contains ' ' then .operand w else .unknown
  match w with
  | '-' :: '-' :: _ =>
      match Flag.beginningWith lead with
      | [] => .ok fallback
      | [flag] => .ok (.flag flag value)
      | _ => .error .unusable
  | '-' :: c :: more =>
      match Flag.ofLetter? c with
      | some flag => .ok (.letters flag more)
      | none => .ok fallback
  | _ => .ok (.operand w)

/-- What a word is. -/
def Word.ofText (w : Text) : Except Stop Word :=
  if w.head? = some '-' then
    match Flag.ofWord? w with
    | some f => .ok (.flag f none)
    | none =>
        match (attached? w).bind fun (lead, value) =>
          (Flag.ofWord? lead).map fun f => (f, value) with
        | some (f, value) => .ok (.flag f (some value))
        | none => if w = ['-'] then .ok (.operand w) else abbreviated w
  else .ok (.operand w)

/-- What the words of a line are.  Behind a word of two dashes there would be operands only, and
none is wanted. -/
def Word.ofLine : List Text → Except Stop (List Word)
  | [] => .ok []
  | w :: rest =>
      if w = ['-', '-'] then .ok [.unknown]
      else do
        let word ← Word.ofText w
        return word :: (← Word.ofLine rest)

/-! ## Options -/

/-- The formats of reports. -/
inductive ReportFormat where
  | json
  | yaml
deriving DecidableEq

/-- The format that a word stands for. -/
def ReportFormat.ofWord? (w : Text) : Option ReportFormat :=
  if w = text "json" then some .json else if w = text "yaml" then some .yaml else none

/-- The options of a run, as far as they have been read. -/
structure Options where
  template : Option Text := none
  rendered : Option Text := none
  record : Option Text := none
  /-- Are leftovers an error?  The settings decide, if the flag is not there. -/
  strict : Bool := false
  arrayMerge : Option ArrayMerge := none
  placement : Option Placement := none
  outputFile : Text := text "extract.json"
  format : ReportFormat := .json
  verbosity : Nat := 1
  /-- Has a word been met that fits nowhere? -/
  rejected : Bool := false
deriving DecidableEq

namespace Options

/-- The value of an option that chooses from a vocabulary. -/
def chosen {α : Type} (value : Option α) : Except Stop α :=
  match value with
  | some v => .ok v
  | none => .error .unusable

/-- A flag with a value. -/
def withValue (options : Options) (flag : Flag) (value : Text) : Except Stop Options :=
  match flag with
  | .template => .ok { options with template := some value }
  | .rendered => .ok { options with rendered := some value }
  | .record => .ok { options with record := some value }
  | .outputFile => .ok { options with outputFile := value }
  | .arrayMerge => do
      return { options with arrayMerge := some (← chosen (ArrayMerge.ofWord? value)) }
  | .placement => do
      return { options with placement := some (← chosen (Placement.ofWord? value)) }
  | .outputFormat => do return { options with format := ← chosen (ReportFormat.ofWord? value) }
  | .help | .strict | .verbosity | .version => .error .unusable

/-- A flag without a value. -/
def withSwitch (options : Options) (flag : Flag) : Except Stop Options :=
  match flag with
  | .help | .version => .error .informed
  | .strict => .ok { options with strict := true }
  | .verbosity => .ok { options with verbosity := options.verbosity + 1 }
  | _ => .error .unusable

/-- The flags of letters that share a dash. -/
def withLetters (options : Options) : Text → Except Stop Options
  | [] => .ok options
  | c :: more =>
      match Flag.ofLetter? c with
      | some flag => do withLetters (← options.withSwitch flag) more
      | none => .ok { options with rejected := true }

/-- Does the flag want a value? -/
def wantsValue (flag : Flag) : Bool :=
  match flag with
  | .help | .strict | .verbosity | .version => false
  | _ => true

/-- Reads the words of a line. -/
def ofWords (options : Options) : List Word → Except Stop Options
  | [] => .ok options
  | .operand _ :: rest => ofWords { options with rejected := true } rest
  | .unknown :: rest => ofWords { options with rejected := true } rest
  | .letters flag more :: rest => do
      ofWords (← (← options.withSwitch flag).withLetters more) rest
  | .flag flag (some value) :: rest => do ofWords (← options.withValue flag value) rest
  | .flag flag none :: rest =>
      if wantsValue flag then
        match rest with
        | .operand value :: rest => do ofWords (← options.withValue flag value) rest
        | _ => .error .unusable
      else do ofWords (← options.withSwitch flag) rest

/-- The options, if they are complete. -/
def complete (options : Options) : Except Stop Options :=
  if options.rejected || options.template.isNone || options.rendered.isNone then
    .error .unusable
  else .ok options

/-- Reads the options of a line. -/
def ofLine (line : List Text) : Except Stop Options := do
  (← ofWords {} (← Word.ofLine line)).complete

end Options

end CommandLine

end InverseTemplate
