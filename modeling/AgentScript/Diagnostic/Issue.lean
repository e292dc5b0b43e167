import AgentScript.Source.Position

/-!
# Issues

An issue is a remark on a tree that parses but does not describe a working agent. Errors
have to be mended; warnings point at what may be a slip.
-/
namespace AgentScript

inductive Severity
  | error | warning
deriving DecidableEq, Inhabited

def Severity.word : Severity → String
  | error => "error"
  | warning => "warning"

structure Issue where
  severity : Severity
  message : String
  location : Option Location
deriving DecidableEq, Inhabited

namespace Issue

def isError (i : Issue) : Bool := i.severity == .error

def display (i : Issue) : String :=
  match i.location with
  | some l => s!"{l.start.line}:{l.start.column}: {i.severity.word}: {i.message}"
  | none => s!"{i.severity.word}: {i.message}"

end Issue

end AgentScript
