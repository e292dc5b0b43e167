import AgentScript.Grammar.Value

/-!
# Parsing flows

A rule is a chain of operands with an optional with clause, and its when clauses stand in
the block under it.
-/
namespace AgentScript.Parser

/-- A parameter, `key: value` with an inline value. -/
def parameter : Parser Attribute :=
  keyed (takeName "parameter name") "':' after parameter name" inlineValue

/-- The clause `with key: value (, key: value)*`, if there is one. -/
def optionalWith : Parser (Option WithClause) := do
  if ← check (.keyword .withWord) then
    let start := (← advance).start
    let parameters ← separated .comma parameter parameter
    let location ← spanFrom start
    return some ⟨parameters, some location⟩
  else return none

def operand : Parser Operand := do
  match Operand.ofToken? (← peek) with
  | some o =>
    let _ ← advance
    return o
  | none => unexpected "flow operand"

/-- A clause `when condition (-> operand)+ with?`. -/
def whenClause : Parser WhenClause := do
  let start := (← expect (.keyword .whenWord) "'when'").start
  let condition ← inlineValue
  let operands ← followers .arrow operand
  let withClause ← optionalWith
  let location ← spanFrom start
  let clause ← ofNode (WhenClause.build condition operands withClause location) location
  finishLine
  return clause

/-- A chain `operand (-> operand)+`. -/
def operandChain : Parser (List Operand) := do
  let operands ← separated .arrow operand operand
  if operands.length < 2 then unexpected "'->'" else return operands

/-- A chain `operand (-> operand)+ with?` and the when clauses under it. -/
def flowRule : Parser FlowRule := do
  let start := (← peek).start
  let operands ← operandChain
  let header ← spanFrom start
  let withClause ← optionalWith
  let whenClauses ← block (.item whenClause) []
  let location ← spanFrom start
  ofNode (FlowRule.build operands withClause whenClauses location) header

/-- The header `flow name:` and its rules. -/
def flowSection : Parser Flow := do
  let start := (← advance).start
  let name ← takeName "flow name"
  let _ ← expect .colon "':' after flow name"
  let rules ← block (.item flowRule) []
  let location ← spanFrom start
  return ⟨name, rules, some location⟩

end AgentScript.Parser
