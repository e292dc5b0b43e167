import AgentScript.Diagnostic.Issue
import AgentScript.Tree.Agent

/-!
# Validation

A working agent has a display name, a flow and messages; its flows and its messages have
distinct names; the rows of a mapped type are as wide as its schema; a carousel has two to
ten cards. These are errors otherwise. A destination that is neither a message nor a state
from which a rule of the same flow starts gives a warning, once for each name and flow.
-/
namespace AgentScript

inductive FindingCause
  | missingAgent
  | missingDisplayName (agent : String)
  | missingFlow (agent : String)
  | missingMessages (agent : String)
  | rowWidth (type : String) (found expected : Nat)
  | duplicateFlow (name : String)
  | duplicateMessage (name : String)
  | carouselSize (found : Nat)
  | unknownDestination (name flow : String)
deriving DecidableEq

def leastCards : Nat := 2

def mostCards : Nat := 10

namespace FindingCause

def severity : FindingCause → Severity
  | unknownDestination _ _ => .warning
  | _ => .error

def message : FindingCause → String
  | missingAgent => "missing agent definition"
  | missingDisplayName agent => s!"agent '{agent}' is missing displayName"
  | missingFlow agent => s!"agent '{agent}' has no flow"
  | missingMessages agent => s!"agent '{agent}' is missing a messages section"
  | rowWidth type found expected => s!"row of '{type}' has {found} values, expected {expected}"
  | duplicateFlow name => s!"duplicate flow '{name}'"
  | duplicateMessage name => s!"duplicate message '{name}'"
  | carouselSize found =>
    s!"carousel needs between {leastCards} and {mostCards} cards, found {found}"
  | unknownDestination name flow =>
    s!"'{name}' in flow '{flow}' is neither a message nor a flow state"

end FindingCause

structure Finding where
  cause : FindingCause
  location : Option Location
deriving DecidableEq

def Finding.toIssue (f : Finding) : Issue := ⟨f.cause.severity, f.cause.message, f.location⟩

/-- A finding if the condition holds. -/
def Finding.when (condition : Bool) (cause : FindingCause) (location : Option Location) :
    List Finding :=
  if condition then [⟨cause, location⟩] else []

/-- The identifiers that can be the next state of a rule: all operands of the rule after
the first, then those of its when clauses. -/
def FlowRule.destinations (r : FlowRule) : List Operand :=
  r.operands.tail ++ r.whenClauses.flatMap (·.operands)

/-- The identifiers from which a rule of the flow starts. -/
def Flow.sources (f : Flow) : List String :=
  (f.rules.filterMap (·.source?)).filterMap fun o =>
    if o.type = .identifier then some o.value else none

def MessageSection.names (s : MessageSection) : List String := s.messages.filterMap (·.name)

namespace Validation

def checkParts (a : Agent) : List Finding :=
  Finding.when a.displayName.isNone (.missingDisplayName a.name) a.location ++
    Finding.when a.flows.isEmpty (.missingFlow a.name) a.location ++
    Finding.when a.messages.isNone (.missingMessages a.name) a.location

def checkRow (m : MappedType) (r : MappedRow) : List Finding :=
  Finding.when (r.values.length != m.schema.length)
    (.rowWidth m.name r.values.length m.schema.length) r.location

def checkMappedTypes (s : SettingsSection) : List Finding :=
  s.mappedTypes.flatMap fun m => m.rows.flatMap (checkRow m)

/-- Flows whose name is among those seen before. -/
def checkFlowNames : List String → List Flow → List Finding
  | _, [] => []
  | seen, f :: rest =>
    Finding.when (seen.contains f.name) (.duplicateFlow f.name) f.location ++
      checkFlowNames (f.name :: seen) rest

def checkMessageName (seen : List String) (m : Message) : List Finding :=
  match m.name with
  | none => []
  | some name => Finding.when (seen.contains name) (.duplicateMessage name) m.location

def checkCarousel : Message → List Finding
  | .carousel h _ cards =>
    Finding.when (cards.length < leastCards || mostCards < cards.length)
      (.carouselSize cards.length) h.location
  | _ => []

def checkMessages : List String → List Message → List Finding
  | _, [] => []
  | seen, m :: rest =>
    checkMessageName seen m ++ checkCarousel m ++ checkMessages (m.name.toList ++ seen) rest

/-- Whether an operand names something that is neither a message nor a source. -/
def isUnknown (known : List String) (o : Operand) : Bool :=
  o.type = .identifier && !known.contains o.value

/-- The unknown destinations of the rules, each with the location of its rule. -/
def unknownDestinations (known : List String) (rules : List FlowRule) :
    List (String × Option Location) :=
  rules.flatMap fun r =>
    (r.destinations.filter (isUnknown known)).map fun o => (o.value, r.location)

/-- Keeps the first of the entries with the same name. -/
def firstByName : List String → List (String × Option Location) → List (String × Option Location)
  | _, [] => []
  | seen, (name, location) :: rest =>
    if seen.contains name then firstByName seen rest
    else (name, location) :: firstByName (name :: seen) rest

def checkDestinations (messages : List String) (f : Flow) : List Finding :=
  (firstByName [] (unknownDestinations (messages ++ f.sources) f.rules)).map
    fun (name, location) => ⟨.unknownDestination name f.name, location⟩

def checkAgent (a : Agent) : List Finding :=
  let messages := (a.messages.map (·.names)).getD []
  checkParts a ++ (a.config.toList ++ a.defaults.toList).flatMap checkMappedTypes ++
    checkFlowNames [] a.flows ++ checkMessages [] ((a.messages.map (·.messages)).getD []) ++
    a.flows.flatMap (checkDestinations messages)

end Validation

/-- Everything that keeps the file from describing a working agent. -/
def SourceFile.findings (f : SourceFile) : List Finding :=
  match f.agent with
  | some a => Validation.checkAgent a
  | none => [⟨.missingAgent, f.location⟩]

def SourceFile.validate (f : SourceFile) : List Issue := f.findings.map (·.toIssue)

end AgentScript
