/-
# What can go wrong

Extraction itself never fails: what cannot be located is reported as unmatched.  A failure has
one of a few causes: a word that no vocabulary has, an input of a kind that the operation can
do nothing with, a strict extraction that left slots unmatched, files that the system keeps back,
or caller code that gave up.  Each cause is a constructor, and its wording is in one place.
-/
import InverseTemplate.Entries

namespace InverseTemplate

/-- The sets of words that options choose from. -/
inductive Vocabulary where
  | arrayMerge
  | componentPlacement
  | slotType
  | entityFormat
deriving DecidableEq

/-- The name of a vocabulary. -/
def Vocabulary.name : Vocabulary → Text
  | .arrayMerge => text "ArrayMerge"
  | .componentPlacement => text "ComponentPlacement"
  | .slotType => text "SlotType"
  | .entityFormat => text "EntityFormat"

/-- What a strict extraction reports when it gives up: the labels it could not match, the
pattern it looked for, and the raw text found for every slot. -/
structure Unmatched where
  labels : List Text
  pattern : Text
  groups : Entries (Option Text)
deriving DecidableEq

/-- The causes of failure. -/
inductive Failure where
  /-- A word, shown as a message shows it, that is not in the vocabulary. -/
  | unknownWord (shown : Text) (vocabulary : Vocabulary)
  /-- A map lacks a key that is needed. -/
  | missingKey
  /-- A value of a kind that the operation can do nothing with. -/
  | wrongKind
  /-- A value that is not a map was asked for one of its entries. -/
  | notAMap
  /-- Of the things that should each be a key with its value, the one at the index is made of
  another number of parts than two. -/
  | notAPair (index parts : Nat)
  /-- A setting outside its range. -/
  | invalidSetting
  /-- A pattern for section breaks that is no regular expression. -/
  | invalidPattern (message : Text)
  /-- The file system refuses something, in these words. -/
  | fileSystem (message : Text)
  /-- Bytes that are not a text. -/
  | notText
  /-- A value is nested more deeply than it can be walked. -/
  | tooDeep
  /-- A report with something in it that its notation cannot write. -/
  | unwritable
  /-- A strict extraction left slots unmatched. -/
  | unmatched (report : Unmatched)
  /-- Caller code gave up, under a category of its own. -/
  | reported (category message : Text)
deriving DecidableEq

/-- The wording of a failure. -/
def Failure.message : Failure → Text
  | .unknownWord shown vocabulary => shown ++ text " is not a valid " ++ vocabulary.name
  | .missingKey => text "a key is missing"
  | .wrongKind => text "a value has the wrong kind"
  | .notAMap => text "a value is not a map"
  | .notAPair index parts =>
      text "dictionary update sequence element #" ++ Text.ofNat index ++ text " has length " ++
        Text.ofNat parts ++ text "; 2 is required"
  | .invalidSetting => text "a setting is out of range"
  | .invalidPattern message => message
  | .fileSystem message => message
  | .notText => text "the bytes are not a text"
  | .tooDeep => text "a value is nested too deeply"
  | .unwritable => text "the report cannot be written"
  | .unmatched report =>
      text "Failed to extract " ++ Text.ofNat report.labels.length ++ text " slots: " ++
        List.intercalate (text ", ") report.labels
  | .reported _ message => message

end InverseTemplate
