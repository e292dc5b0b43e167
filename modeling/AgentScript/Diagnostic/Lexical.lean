import AgentScript.Source.Position
import AgentScript.Token.Kind

/-!
# Lexical errors

A fault is a cause at a place of the text. Errors are faults put into words and labelled
with the file. A log collects errors under one label; reporting never ends a reading.
-/
namespace AgentScript

inductive LexicalCause
  | unexpectedCharacter (found : Char)
  | inconsistentUnindent
  | unclosedBracket (bracket : Bracket)
  | mismatchedBracket (found expected : Bracket)
  | unmatchedBracket (found : Bracket)
  | unterminatedString
  | unterminatedTypeTag
  | malformedCodeMarker
  | unknownLanguage (name : String)
  | textAfterBlockMarker
deriving DecidableEq

def LexicalCause.message : LexicalCause → String
  | unexpectedCharacter c => s!"unexpected character '{c}'"
  | inconsistentUnindent => "unindent does not match any outer indentation level"
  | unclosedBracket b => s!"unclosed '{b.opener}'"
  | mismatchedBracket found expected =>
    s!"mismatched '{found.closer}', expected '{expected.closer}'"
  | unmatchedBracket found => s!"unmatched '{found.closer}'"
  | unterminatedString => "unterminated string literal"
  | unterminatedTypeTag => "unterminated type tag"
  | malformedCodeMarker => "malformed embedded code marker"
  | unknownLanguage name => s!"unknown embedded language '{name}'"
  | textAfterBlockMarker => "unexpected text after block marker"

/-- A cause, the point where it was noticed, and the number of characters it concerns. -/
structure LexicalFault where
  cause : LexicalCause
  position : Position
  length : Nat
deriving DecidableEq

structure LexicalError where
  message : String
  position : Position
  length : Nat
  file : Option String
deriving DecidableEq, Inhabited

namespace LexicalError

/-- The range of the error, on one line. -/
def location (e : LexicalError) : Location :=
  ⟨e.position, ⟨e.position.line, (e.position.column + e.length) % limit32,
    (e.position.offset + e.length) % limit64⟩⟩

/-- The message after the file's label, if there is one, and the line and column. -/
def display (e : LexicalError) : String :=
  let label := match e.file with
    | some f => s!"{f}:"
    | none => ""
  s!"{label}{e.position.line}:{e.position.column}: {e.message}"

end LexicalError

def LexicalFault.toError (file : Option String) (f : LexicalFault) : LexicalError :=
  ⟨f.cause.message, f.position, f.length, file⟩

/-- The errors reported so far, under one label. -/
structure ErrorLog where
  file : Option String
  errors : Array LexicalError

namespace ErrorLog

def empty (file : Option String) : ErrorLog := ⟨file, #[]⟩

def report (log : ErrorLog) (message : String) (position : Position) (length : Nat) : ErrorLog :=
  { log with errors := log.errors.push ⟨message, position, length, log.file⟩ }

end ErrorLog

end AgentScript
