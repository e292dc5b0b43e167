import AgentScript.Diagnostic.Issue
import AgentScript.Diagnostic.Lexical
import AgentScript.Grammar.File
import AgentScript.Serial.Source
import AgentScript.Token.Basic

/-!
# Tokens, errors, issues and options in JSON
-/
namespace AgentScript

open Json

def TokenKind.toJson (k : TokenKind) : Json := str k.name

def TokenKind.ofJson? (v : Json) : Option TokenKind := (word? .outside v).bind TokenKind.ofName?

def Token.toJson (t : Token) : Json :=
  obj [("kind", t.kind.toJson), ("text", str t.text), ("start", t.start.toJson),
    ("end", t.stop.toJson)]

def Token.ofJson? (v : Json) : Option Token := do
  let v ← Shape.record? ⟨["kind", "text", "start", "end"], []⟩ v
  let kind ← required TokenKind.ofJson? "kind" v
  let text ← required str? "text" v
  let start ← required Position.ofJson? "start" v
  let stop ← required Position.ofJson? "end" v
  return ⟨kind, text, start, stop⟩

def LexicalError.toJson (e : LexicalError) : Json :=
  record [("message", some (str e.message)), ("offset", some (nat e.position.offset)),
    ("length", some (nat e.length)), ("line", some (nat e.position.line)),
    ("column", some (nat e.position.column)), ("file", e.file.map str)]

def LexicalError.ofJson? (v : Json) : Option LexicalError := do
  let v ← Shape.record? ⟨["message", "offset", "length", "line", "column"], ["file"]⟩ v
  let message ← required str? "message" v
  let position ← Position.ofJson? v
  let length ← required nat64? "length" v
  let file ← optional str? "file" v
  return ⟨message, position, length, file⟩

def ParseError.toJson (e : ParseError) : Json :=
  record [("message", some (str e.message)), locationField e.location, ("file", e.file.map str)]

def Severity.ofJson? : Json → Option Severity :=
  wordIn? [("error", .error), ("warning", .warning)] .outside

def Issue.toJson (i : Issue) : Json :=
  record [("severity", some (str i.severity.word)), ("message", some (str i.message)),
    locationField i.location]

def Issue.ofJson? (v : Json) : Option Issue := do
  let v ← Shape.record? (.node ["severity", "message"] []) v
  let severity ← required Severity.ofJson? "severity" v
  let message ← required str? "message" v
  let location ← location? v
  return ⟨severity, message, location⟩

def ParseOptions.toJson (o : ParseOptions) : Json :=
  obj [("file", (o.file.map str).getD null), ("maxErrors", nat o.maxErrors)]

/-- Options have defaults for both fields, and a label may be null. -/
def ParseOptions.ofJson? (v : Json) : Option ParseOptions := do
  let v ← Shape.record? ⟨[], ["file", "maxErrors"]⟩ v
  let file ← optional str? "file" v
  let maxErrors ← defaulted ParseOptions.standard.maxErrors nat64? "maxErrors" v
  return ⟨file, maxErrors⟩

end AgentScript
