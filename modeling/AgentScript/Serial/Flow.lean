import AgentScript.Serial.Value
import AgentScript.Tree.Flow

/-!
# Flows in JSON
-/
namespace AgentScript

open Json

def OperandType.toJson : OperandType → Json
  | .atom => str "atom"
  | .string => str "string"
  | .identifier => str "identifier"

def OperandType.ofJson? : Json → Option OperandType :=
  wordIn? [("atom", .atom), ("string", .string), ("identifier", .identifier)] .outside

def Operand.toJson (o : Operand) : Json :=
  record [("operandType", some o.type.toJson), ("value", some (str o.value)),
    locationField o.location]

def Operand.ofJson? (v : Json) : Option Operand := do
  let v ← Shape.record? (.node ["operandType", "value"] []) v
  let type ← required OperandType.ofJson? "operandType" v
  let value ← required str? "value" v
  let location ← location? v
  return ⟨type, value, location⟩

def WithClause.toJson (w : WithClause) : Json :=
  record [("parameters", some (arr (w.parameters.map (·.toJson)))), locationField w.location]

def WithClause.ofJson? (v : Json) : Option WithClause := do
  let v ← Shape.record? (.node ["parameters"] []) v
  let parameters ← required (listOf (Attribute.ofJson? .outside)) "parameters" v
  let location ← location? v
  return ⟨parameters, location⟩

def WhenClause.toJson (w : WhenClause) : Json :=
  record [("condition", some w.condition.toJson),
    ("operands", some (arr (w.operands.map (·.toJson)))),
    ("withClause", w.withClause.map (·.toJson)), locationField w.location]

def WhenClause.ofJson? (v : Json) : Option WhenClause := do
  let v ← Shape.record? (.node ["condition", "operands"] ["withClause"]) v
  let condition ← required (Value.ofJson? .outside) "condition" v
  let operands ← required (listOf Operand.ofJson?) "operands" v
  let withClause ← optional WithClause.ofJson? "withClause" v
  let location ← location? v
  return ⟨condition, operands, withClause, location⟩

def FlowRule.toJson (r : FlowRule) : Json :=
  record [("operands", some (arr (r.operands.map (·.toJson)))),
    ("withClause", r.withClause.map (·.toJson)),
    ("whenClauses", nonEmpty (r.whenClauses.map (·.toJson))), locationField r.location]

def FlowRule.ofJson? (v : Json) : Option FlowRule := do
  let v ← Shape.record? (.node ["operands"] ["withClause", "whenClauses"]) v
  let operands ← required (listOf Operand.ofJson?) "operands" v
  let withClause ← optional WithClause.ofJson? "withClause" v
  let whenClauses ← defaulted [] (listOf WhenClause.ofJson?) "whenClauses" v
  let location ← location? v
  return ⟨operands, withClause, whenClauses, location⟩

def Flow.toJson (f : Flow) : Json :=
  record [("name", some (str f.name)), ("rules", some (arr (f.rules.map (·.toJson)))),
    locationField f.location]

def Flow.ofJson? (v : Json) : Option Flow := do
  let v ← Shape.record? (.node ["name", "rules"] []) v
  let name ← required str? "name" v
  let rules ← required (listOf FlowRule.ofJson?) "rules" v
  let location ← location? v
  return ⟨name, rules, location⟩

def Transition.toJson (t : Transition) : Json :=
  record [("source", some t.source.toJson), ("destination", some t.destination.toJson),
    ("withClause", t.withClause.map (·.toJson)), locationField t.location]

end AgentScript
