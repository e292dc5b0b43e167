import AgentScript.Json.Printing
import AgentScript.Serial.Flow
import AgentScript.Serial.Message
import AgentScript.Tree.Agent

/-!
# Agents and files in JSON
-/
namespace AgentScript

open Json

/-- A field that is null when it has no value. -/
def nullable (v : Option Json) : Option Json := some (v.getD null)

def MappedRow.toJson (r : MappedRow) : Json :=
  record [("values", some (arr (r.values.map (·.toJson)))), locationField r.location]

def MappedRow.ofJson? (v : Json) : Option MappedRow := do
  let v ← Shape.record? (.node ["values"] []) v
  let values ← required (listOf (Value.ofJson? .outside)) "values" v
  let location ← location? v
  return ⟨values, location⟩

def MappedType.toJson (m : MappedType) : Json :=
  record [("name", some (str m.name)), ("schema", some (arr (m.schema.map str))),
    ("items", some (arr (m.rows.map (·.toJson)))), locationField m.location]

def MappedType.ofJson? (v : Json) : Option MappedType := do
  let v ← Shape.record? (.node ["name", "schema", "items"] []) v
  let name ← required str? "name" v
  let schema ← required strings? "schema" v
  let rows ← required (listOf MappedRow.ofJson?) "items" v
  let location ← location? v
  return ⟨name, schema, rows, location⟩

def SettingsSection.toJson (s : SettingsSection) : Json :=
  record [("name", s.name.map str), ("attributes", some (arr (s.attributes.map (·.toJson)))),
    ("mappedTypes", nonEmpty (s.mappedTypes.map (·.toJson))), locationField s.location]

def SettingsSection.ofJson? (v : Json) : Option SettingsSection := do
  let v ← Shape.record? (.node ["name", "attributes"] ["mappedTypes"]) v
  let name ← optional str? "name" v
  let attributes ← required (listOf (Attribute.ofJson? .outside)) "attributes" v
  let mappedTypes ← defaulted [] (listOf MappedType.ofJson?) "mappedTypes" v
  let location ← location? v
  return ⟨name, attributes, mappedTypes, location⟩

def Agent.toJson (a : Agent) : Json :=
  record [("name", some (str a.name)), ("displayName", nullable (a.displayName.map str)),
    ("brandName", a.brandName.map str), ("config", a.config.map (·.toJson)),
    ("defaults", a.defaults.map (·.toJson)), ("flows", some (arr (a.flows.map (·.toJson)))),
    ("messages", nullable (a.messages.map (·.toJson))), locationField a.location]

def Agent.shape : Shape :=
  .node ["name", "displayName", "brandName", "config", "defaults", "flows", "messages"] []

def Agent.ofJson? (v : Json) : Option Agent := do
  let v ← Agent.shape.record? v
  let name ← required str? "name" v
  let displayName ← optional str? "displayName" v
  let brandName ← optional str? "brandName" v
  let config ← optional SettingsSection.ofJson? "config" v
  let defaults ← optional SettingsSection.ofJson? "defaults" v
  let flows ← required (listOf Flow.ofJson?) "flows" v
  let messages ← optional MessageSection.ofJson? "messages" v
  let location ← location? v
  return ⟨name, displayName, brandName, config, defaults, flows, messages, location⟩

def Import.toJson (i : Import) : Json :=
  record [("importPath", some (arr (i.path.map str))), ("alias", i.localName.map str),
    ("source", i.source.map str), locationField i.location]

def Import.ofJson? (v : Json) : Option Import := do
  let v ← Shape.record? (.node ["importPath"] ["alias", "source"]) v
  let path ← required strings? "importPath" v
  let localName ← optional str? "alias" v
  let source ← optional str? "source" v
  let location ← location? v
  return ⟨path, localName, source, location⟩

def SourceFile.toJson (f : SourceFile) : Json :=
  record [("imports", some (arr (f.imports.map (·.toJson)))),
    ("agentSection", nullable (f.agent.map (·.toJson))), locationField f.location]

def SourceFile.ofJson? (v : Json) : Option SourceFile := do
  let v ← Shape.record? (.node ["imports", "agentSection"] []) v
  let imports ← required (listOf Import.ofJson?) "imports" v
  let agent ← optional Agent.ofJson? "agentSection" v
  let location ← location? v
  return ⟨imports, agent, location⟩

/-- The file as JSON text with one field a line. -/
def SourceFile.toJsonText (f : SourceFile) : String := f.toJson.pretty

end AgentScript
