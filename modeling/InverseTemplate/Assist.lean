/-
# Assisted extraction

What matching cannot recover may be left to a provider that understands the text.  It is asked
at most once, and only about the slots that the plain extraction left over; each of them comes
with a hint.  What the provider returns is merged into the extracted data.

A provider is a function from requests to responses that may fail, and a failure is handed on.
Whatever else it does while it answers is the business of the monad that it acts in, so what an
assisted extraction does with a provider is the same program in every monad that has failures.
-/
import InverseTemplate.Extraction

namespace InverseTemplate

/-- The instruction for recovering what belongs into a slot. -/
def Slot.hint (slot : Slot) : Text :=
  match slot.content with
  | .expression path => text "Extract the value for " ++ path ++ text " from the content"
  | .conditional _ => text "Determine the value that produced this conditional output"
  | .loop _ => text "Extract the array of items from the repeated content"
  | .component name _ _ =>
      text "Extract the props of the " ++ name ++ text " component from its rendered output"

namespace Assist

/-- What a provider is asked. -/
structure Request where
  template : Text
  rendered : Text
  /-- The labels that the plain extraction could not resolve. -/
  unmatched : List Text
  /-- The instruction for each of these labels. -/
  hints : Entries Text
deriving DecidableEq

/-- The request about unmatched slots of a template. -/
def Request.about (template rendered : Text) (unmatched : List Text) : Request :=
  { template
    rendered
    unmatched
    hints :=
      Entries.ofWrites
        (((Template.ofText template).slots.filter fun slot => unmatched.contains slot.label).map
          fun slot => (slot.label, slot.hint)) }

/-- The request in words. -/
def Request.prompt (request : Request) : Text :=
  text "Given this MDX template:\n" ++ request.template ++
    text "\n\nAnd this rendered content:\n" ++ request.rendered ++
    text "\n\nExtract the values for the missing fields: " ++
    List.intercalate (text ", ") request.unmatched

/-- What a provider answers. -/
structure Response where
  data : Value
  /-- The provider's own confidence. -/
  confidence : Float
  /-- The labels that are still unresolved, if the provider says so. -/
  unmatched : Option (List Text)

/-- Answers requests, acting in a monad. -/
abbrev ProviderIn (m : Type → Type) : Type := Request → m Response

/-- Answers requests, and does nothing else. -/
abbrev Provider : Type := ProviderIn (Except Failure)

/-- The outcome of an assisted extraction. -/
structure Outcome where
  data : Value
  confidence : Float
  unmatched : List Text
  /-- Was help needed, whether there was any or not? -/
  assisted : Bool
  /-- The plain extraction. -/
  plain : Extraction
  /-- The request that the provider was asked, if it was asked. -/
  request : Option Request

/-- The confidence after an answer: the higher one of the two, where the provider's counts as a
number between 0 and 1 and is of no account if it is not a number. -/
def confidenceAfter (plain answered : Float) : Float :=
  let positive := if 0 < answered then answered else 0
  let bounded := if positive < 1 then positive else 1
  if plain < bounded then bounded else plain

/-- Does a plain extraction leave nothing to ask for? -/
def isComplete (settings : Settings) (e : Extraction) : Bool :=
  settings.threshold ≤ e.confidence && e.matched

/-- The outcome of a plain extraction without any answer. -/
def unanswered (e : Extraction) (assisted : Bool) : Outcome :=
  { data := .map e.data
    confidence := e.confidence
    unmatched := e.unmatched
    assisted
    plain := e
    request := none }

/-- The outcome of a plain extraction with the provider's answer. -/
def answered (settings : Settings) (e : Extraction) (request : Request) (response : Response) :
    Outcome :=
  { data := applyExtracted settings.arrayMerge none (.map e.data) response.data
    confidence := confidenceAfter e.confidence response.confidence
    unmatched := response.unmatched.getD e.unmatched
    assisted := true
    plain := e
    request := some request }

end Assist

/-- Extracts data and asks the provider, if there is one, about what is left over. -/
def extractAssistedIn {m : Type → Type} [Monad m] [MonadExceptOf Failure m] (settings : Settings)
    (options : ExtractOptions) (provider : Option (Assist.ProviderIn m)) (source rendered : Text) :
    m Assist.Outcome := do
  let e ← MonadExcept.ofExcept (extract settings options (some false) source rendered)
  if Assist.isComplete settings e then return Assist.unanswered e false
  else
    match provider with
    | none => return Assist.unanswered e true
    | some ask =>
        let request := Assist.Request.about source rendered e.unmatched
        let response ← ask request
        return Assist.answered settings e request response

/-- The same with a provider that only answers. -/
def extractAssisted (settings : Settings) (options : ExtractOptions)
    (provider : Option Assist.Provider) (source rendered : Text) :
    Except Failure Assist.Outcome :=
  extractAssistedIn settings options provider source rendered

end InverseTemplate
