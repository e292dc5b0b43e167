import AgentScript.Tree.Value

/-!
# Flows

A flow is a list of rules. A rule leads from its first operand along the others; a with
clause belongs to its last step, and when clauses name further destinations.
-/
namespace AgentScript

inductive OperandType
  | atom | string | identifier
deriving DecidableEq, Inhabited

structure Operand where
  type : OperandType
  value : String
  location : Option Location
deriving DecidableEq, Inhabited

structure WithClause where
  parameters : List Attribute
  location : Option Location
deriving Inhabited

structure WhenClause where
  condition : Value
  operands : List Operand
  withClause : Option WithClause
  location : Option Location
deriving Inhabited

structure FlowRule where
  operands : List Operand
  withClause : Option WithClause
  whenClauses : List WhenClause
  location : Option Location
deriving Inhabited

structure Flow where
  name : String
  rules : List FlowRule
  location : Option Location
deriving Inhabited

/-- One step of a rule. -/
structure Transition where
  source : Operand
  destination : Operand
  withClause : Option WithClause
  location : Option Location
deriving Inhabited

namespace FlowRule

def source? (r : FlowRule) : Option Operand := r.operands.head?

/-- The steps along a chain of operands; the last one carries the with clause. -/
def stepsAlong (withClause : Option WithClause) (location : Option Location) :
    List Operand → List Transition
  | [] => []
  | [_] => []
  | [a, b] => [⟨a, b, withClause, location⟩]
  | a :: b :: rest => ⟨a, b, none, location⟩ :: stepsAlong withClause location (b :: rest)

def transitions (r : FlowRule) : List Transition := stepsAlong r.withClause r.location r.operands

end FlowRule

end AgentScript
