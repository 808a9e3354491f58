/-
# Files of a run

The input directory answers what stands at a name.  The bytes of a template and of a rendered text
are a text in UTF-8 whose line ends, however they are written, become line feeds.

The bytes of a record are left to a library for YAML.  A run does not look into that library: it is
given what the library makes of some bytes, in all the ways that this can end (`Loaded`).
-/
import InverseTemplate.Failure
import InverseTemplate.Value.Basic

namespace InverseTemplate

namespace CommandLine

/-- What stands at a name. -/
inductive Entry where
  | missing
  | directory
  | file (bytes : ByteArray)
  /-- Something that the system refuses to open, in these words. -/
  | unreadable (message : Text)
  /-- The system refuses to tell whether anything is there, in these words. -/
  | unknown (message : Text)

/-! ## Texts -/

/-- The text with a line feed for every line end. -/
def withLineFeeds : Text → Text
  | '\r' :: '\n' :: r => '\n' :: withLineFeeds r
  | '\r' :: r => '\n' :: withLineFeeds r
  | c :: r => c :: withLineFeeds r
  | [] => []

/-- The text that bytes spell. -/
def decoded? (bytes : ByteArray) : Option Text :=
  (String.fromUTF8? bytes).map fun s => withLineFeeds s.toList

/-! ## Records -/

/-- A record to update. -/
structure Record where
  /-- The entries of a map.  A value of a type of its own, such as a date, is an opaque one.  A
  key that is not a text, and so never meets one of the data, goes under a name that no other key
  has.  A map that holds itself, by a name for it, is spelled out more deeply than it can be
  walked. -/
  entries : Entries Value
  /-- Does JSON know all the keys, and does every text have bytes?  A text with half a character in
  it has none. -/
  encodable : Bool

/-- What a library for YAML makes of the bytes of a record. -/
inductive Loaded where
  /-- An empty document. -/
  | empty
  | record (record : Record)
  /-- A value that is not a map. -/
  | other
  /-- An error that the library reports, in its words. -/
  | malformed (message : Text)
  /-- A failure of another sort: of bytes that are not a text, or of a date that does not exist. -/
  | failed (failure : Failure)

/-- The record that has been loaded, if any.  An empty document is an empty record. -/
def Loaded.record? : Loaded → Option Record
  | .empty => some ⟨[], true⟩
  | .record r => some r
  | _ => none

/-! ## Names -/

/-- The steps that a name takes from a directory; empty ones and single points lead nowhere. -/
def steps (name : Text) : List Text :=
  (List.splitOn '/' name).filter fun step => step ≠ [] && step ≠ ['.']

/-- How a name in a directory is shown.  A name that begins with a slash stands for itself. -/
def located (directory name : Text) : Text :=
  if name.head? = some '/' then '/' :: List.intercalate ['/'] (steps name)
  else List.intercalate ['/'] (directory :: steps name)

end CommandLine

end InverseTemplate
