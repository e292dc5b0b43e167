import AgentScript.Tree.Agent

/-!
# Trees without locations

A tree says what a text means and where every part of it stands. Without the locations only
the meaning is left, which is what a tree has in common with the data it was written from.
-/
namespace AgentScript

def TypeTag.erased (t : TypeTag) : TypeTag := { t with location := none }

namespace Value

mutual

/-- A value without the locations in it. -/
def erased : Value → Value
  | string text isMultiline chomping _ => string text isMultiline chomping none
  | number value _ => number value none
  | boolean value _ => boolean value none
  | null _ => null none
  | identifier name isSpaceSeparated _ => identifier name isSpaceSeparated none
  | atom name _ => atom name none
  | typeTag tag => typeTag tag.erased
  | list items isInline _ => list (erasedItems items) isInline none
  | dictionary entries isInline _ => dictionary (erasedEntries entries) isInline none
  | expression language code _ => expression language code none
  | codeBlock language lines _ => codeBlock language lines none

def erasedItems : List Value → List Value
  | [] => []
  | v :: vs => erased v :: erasedItems vs

def erasedEntries : List (Keyed Value) → List (Keyed Value)
  | [] => []
  | ⟨key, v, _⟩ :: es => ⟨key, erased v, none⟩ :: erasedEntries es

end

end Value

def Keyed.erased (e : Keyed Value) : Keyed Value := ⟨e.key, e.value.erased, none⟩

theorem Value.erasedItems_eq_map (vs : List Value) : erasedItems vs = vs.map erased := by
  induction vs with
  | nil => rfl
  | cons v vs ih => rw [erasedItems, ih, List.map_cons]

theorem Value.erasedEntries_eq_map (es : List (Keyed Value)) :
    erasedEntries es = es.map Keyed.erased := by
  induction es with
  | nil => rfl
  | cons e es ih =>
    rw [erasedEntries, ih, List.map_cons]
    rfl

def Operand.erased (o : Operand) : Operand := { o with location := none }

def WithClause.erased (w : WithClause) : WithClause := ⟨w.parameters.map Keyed.erased, none⟩

def WhenClause.erased (w : WhenClause) : WhenClause :=
  ⟨w.condition.erased, w.operands.map Operand.erased, w.withClause.map WithClause.erased, none⟩

def FlowRule.erased (r : FlowRule) : FlowRule :=
  ⟨r.operands.map Operand.erased, r.withClause.map WithClause.erased,
    r.whenClauses.map WhenClause.erased, none⟩

def Flow.erased (f : Flow) : Flow := ⟨f.name, f.rules.map FlowRule.erased, none⟩

def SuggestionAction.erased : SuggestionAction → SuggestionAction
  | saveEvent title startTime endTime description =>
    saveEvent title startTime.erased endTime.erased description
  | action => action

def Suggestion.erased (s : Suggestion) : Suggestion := ⟨s.text, s.action.erased, none⟩

def MessageHeader.erased (h : MessageHeader) : MessageHeader :=
  ⟨h.name, h.traffic, h.suggestions.map Suggestion.erased, none⟩

def RichCard.erased (c : RichCard) : RichCard := { c with header := c.header.erased }

def MessageDefinition.erased (d : MessageDefinition) : MessageDefinition :=
  ⟨d.name, d.traffic, d.attributes.map Keyed.erased, d.suggestions.map Suggestion.erased, none⟩

def Message.erased : Message → Message
  | definition d => definition d.erased
  | text header content => text header.erased content
  | richCard card => richCard card.erased
  | carousel header width cards => carousel header.erased width (cards.map RichCard.erased)
  | rbmFile header fileUrl thumbnailUrl => rbmFile header.erased fileUrl thumbnailUrl
  | file header url => file header.erased url

def MessageSection.erased (m : MessageSection) : MessageSection :=
  ⟨m.name, m.messages.map Message.erased, none⟩

def MappedRow.erased (r : MappedRow) : MappedRow := ⟨r.values.map Value.erased, none⟩

def MappedType.erased (m : MappedType) : MappedType :=
  ⟨m.name, m.schema, m.rows.map MappedRow.erased, none⟩

def SettingsSection.erased (s : SettingsSection) : SettingsSection :=
  ⟨s.name, s.attributes.map Keyed.erased, s.mappedTypes.map MappedType.erased, none⟩

def Agent.erased (a : Agent) : Agent :=
  ⟨a.name, a.displayName, a.brandName, a.config.map SettingsSection.erased,
    a.defaults.map SettingsSection.erased, a.flows.map Flow.erased,
    a.messages.map MessageSection.erased, none⟩

def Import.erased (i : Import) : Import := { i with location := none }

/-- The tree of a file without the locations in it. -/
def SourceFile.erased (f : SourceFile) : SourceFile :=
  ⟨f.imports.map Import.erased, f.agent.map Agent.erased, none⟩

end AgentScript
