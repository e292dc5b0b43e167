import AgentScript.Proofs.Reading.Transcription
import AgentScript.Tree.Agent

/-!
# Nodes of a tree

Seen from its locations alone, a tree is a node with a list of nodes in each field; a field
that may be missing is a list of at most one. A node is placed if it has a location inside
the text that encloses those of its fields, where the nodes of each field follow each other
without overlapping, and if all nodes below it are placed.
-/
namespace AgentScript

inductive Node
  | mk (location : Option Location) (fields : List (List Node))

namespace Node

def location : Node → Option Location
  | mk l _ => l

def fields : Node → List (List Node)
  | mk _ fs => fs

/-- The first node ends before the second begins. -/
def Precedes (m n : Node) : Prop :=
  ∃ k l, m.location = some k ∧ n.location = some l ∧ k.stop.Before l.start

/-- The node and all nodes below it lie where they should in a text of `limit` characters. -/
inductive Placed (limit : Nat) : Node → Prop
  | mk {l : Location} {fields : List (List Node)} (ordered : l.start.Before l.stop)
      (inside : l.stop.offset ≤ limit) (below : ∀ row ∈ fields, ∀ n ∈ row, Placed limit n)
      (enclosed : ∀ row ∈ fields, ∀ n ∈ row, ∃ k, n.location = some k ∧ l.encloses k = true)
      (inOrder : ∀ row ∈ fields, row.Pairwise Precedes) : Placed limit ⟨some l, fields⟩

end Node

def TypeTag.node (t : TypeTag) : Node := ⟨t.location, []⟩

mutual

def Value.node : Value → Node
  | .list items _ l => ⟨l, [Value.nodes items]⟩
  | .dictionary entries _ l => ⟨l, [Value.entryNodes entries]⟩
  | .typeTag t => t.node
  | .string _ _ _ l => ⟨l, []⟩
  | .number _ l => ⟨l, []⟩
  | .boolean _ l => ⟨l, []⟩
  | .null l => ⟨l, []⟩
  | .identifier _ _ l => ⟨l, []⟩
  | .atom _ l => ⟨l, []⟩
  | .expression _ _ l => ⟨l, []⟩
  | .codeBlock _ _ l => ⟨l, []⟩

def Value.nodes : List Value → List Node
  | [] => []
  | v :: vs => v.node :: Value.nodes vs

def Value.entryNodes : List (Keyed Value) → List Node
  | [] => []
  | e :: es => Value.entryNode e :: Value.entryNodes es

def Value.entryNode : Keyed Value → Node
  | ⟨_, v, l⟩ => ⟨l, [[v.node]]⟩

end

/-- The node of an attribute, a parameter or an entry. -/
def Keyed.node (e : Keyed Value) : Node := ⟨e.location, [[e.value.node]]⟩

theorem Value.nodes_eq_map (vs : List Value) : Value.nodes vs = vs.map Value.node := by
  induction vs with
  | nil => rfl
  | cons v vs ih => rw [Value.nodes, ih, List.map_cons]

theorem Value.entryNodes_eq_map (es : List (Keyed Value)) :
    Value.entryNodes es = es.map Keyed.node := by
  induction es with
  | nil => rfl
  | cons e es ih =>
    cases e
    rw [Value.entryNodes, ih, List.map_cons]
    rfl

def Operand.node (o : Operand) : Node := ⟨o.location, []⟩

def WithClause.node (w : WithClause) : Node := ⟨w.location, [w.parameters.map Keyed.node]⟩

def WhenClause.node (w : WhenClause) : Node :=
  ⟨w.location, [[w.condition.node], w.operands.map Operand.node,
    w.withClause.toList.map WithClause.node]⟩

def FlowRule.node (r : FlowRule) : Node :=
  ⟨r.location, [r.operands.map Operand.node, r.withClause.toList.map WithClause.node,
    r.whenClauses.map WhenClause.node]⟩

def Flow.node (f : Flow) : Node := ⟨f.location, [f.rules.map FlowRule.node]⟩

def SuggestionAction.fields : SuggestionAction → List (List Node)
  | .saveEvent _ startTime endTime _ => [[startTime.node], [endTime.node]]
  | .reply _ | .dial _ | .openUrl _ _ _ | .shareLocation | .viewLocation _ => []

def Suggestion.node (s : Suggestion) : Node := ⟨s.location, s.action.fields⟩

def RichCard.node (c : RichCard) : Node :=
  ⟨c.header.location, [c.header.suggestions.map Suggestion.node]⟩

def Message.node : Message → Node
  | .definition d =>
    ⟨d.location, [d.attributes.map Keyed.node, d.suggestions.map Suggestion.node]⟩
  | .text h _ => ⟨h.location, [h.suggestions.map Suggestion.node]⟩
  | .richCard c => c.node
  | .carousel h _ cards =>
    ⟨h.location, [cards.map RichCard.node, h.suggestions.map Suggestion.node]⟩
  | .rbmFile h _ _ => ⟨h.location, [h.suggestions.map Suggestion.node]⟩
  | .file h _ => ⟨h.location, [h.suggestions.map Suggestion.node]⟩

def MessageSection.node (m : MessageSection) : Node := ⟨m.location, [m.messages.map Message.node]⟩

def MappedRow.node (r : MappedRow) : Node := ⟨r.location, [r.values.map Value.node]⟩

def MappedType.node (m : MappedType) : Node := ⟨m.location, [m.rows.map MappedRow.node]⟩

def SettingsSection.node (s : SettingsSection) : Node :=
  ⟨s.location, [s.attributes.map Keyed.node, s.mappedTypes.map MappedType.node]⟩

def Agent.node (a : Agent) : Node :=
  ⟨a.location, [a.config.toList.map SettingsSection.node,
    a.defaults.toList.map SettingsSection.node, a.flows.map Flow.node,
    a.messages.toList.map MessageSection.node]⟩

def Import.node (i : Import) : Node := ⟨i.location, []⟩

def SourceFile.node (f : SourceFile) : Node :=
  ⟨f.location, [f.imports.map Import.node, f.agent.toList.map Agent.node]⟩

end AgentScript
