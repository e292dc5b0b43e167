import AgentScript.Token.Basic
import AgentScript.Tree.Build

/-!
# Parse errors

A problem is a cause at a location, or at none where it concerns the whole file. Errors
are problems put into words and labelled with the file.
-/
namespace AgentScript

/-- Where options in the form of atoms can stand. -/
inductive OptionPlace
  | richCard | carousel | openUrl
deriving DecidableEq

def OptionPlace.describe : OptionPlace → String
  | richCard => "rich card"
  | carousel => "carousel"
  | openUrl => "openUrl"

inductive ParseCause
  /-- Something else was needed in the place of a token. -/
  | expected (what : String) (kind : TokenKind) (text : String)
  | straySuggestion (word : String)
  | unknownMessageForm (word : String)
  | unknownSuggestionForm (word : String)
  | unknownOption (place : OptionPlace) (name : String)
  | duplicateSection (form : SectionForm)
  | duplicateAttribute (key : String)
  | unknownAgentAttribute (key : String)
  | nestedAgent
  | secondAgent
  | malformedNode (error : NodeError)
  | unexpectedIndentation
  | nothingRecognized
  | missingAgent
deriving DecidableEq

/-- How a message speaks of the token that was found. -/
def describeFound (kind : TokenKind) (text : String) : String :=
  if kind.isStructural || text.isEmpty then kind.describe else s!"{kind.describe} '{text}'"

def ParseCause.message : ParseCause → String
  | expected what kind text => s!"expected {what}, found {describeFound kind text}"
  | straySuggestion word => s!"suggestion '{word}' must belong to a message"
  | unknownMessageForm word => s!"unknown message shortcut '{word}'"
  | unknownSuggestionForm word => s!"unknown suggestion shortcut '{word}'"
  | unknownOption place name => s!"unknown {place.describe} option ':{name}'"
  | duplicateSection form => s!"duplicate {form.word} section"
  | duplicateAttribute key => s!"duplicate {key} attribute"
  | unknownAgentAttribute key => s!"unknown agent attribute '{key}'"
  | nestedAgent => "agent definitions cannot be nested"
  | secondAgent => "only one agent definition is allowed per file"
  | malformedNode error => error.message
  | unexpectedIndentation => "unexpected indentation"
  | nothingRecognized => "no agent definition or import found"
  | missingAgent => "missing agent definition"

structure ParseProblem where
  cause : ParseCause
  location : Option Location
deriving DecidableEq

structure ParseError where
  message : String
  location : Option Location
  file : Option String
deriving DecidableEq, Inhabited

def ParseProblem.toError (file : Option String) (p : ParseProblem) : ParseError :=
  ⟨p.cause.message, p.location, file⟩

/-- The message after the file's label and the line and column, as far as there are any. -/
def ParseError.display (e : ParseError) : String :=
  let label := match e.file with
    | some f => s!"{f}:"
    | none => ""
  match e.location with
  | some l => s!"{label}{l.start.line}:{l.start.column}: {e.message}"
  | none => if e.file.isSome then s!"{label} {e.message}" else e.message

end AgentScript
