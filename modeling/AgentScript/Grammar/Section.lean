import AgentScript.Grammar.Flow
import AgentScript.Grammar.Message

/-!
# Parsing imports and agents

An agent is a name with sections and the two attributes of its own. Each of these may
occur once, except flows; a repeated one is reported and does not count.
-/
namespace AgentScript.Parser

/-- A line `import a/b (as alias)? (from "source")?`. -/
def importLine : Parser Import := do
  let start := (← advance).start
  let path ← separated .slash (takeName "import path") (takeName "import path segment")
  let localName ← optionally (.keyword .asWord) (takeName "import alias")
  let source ← optionally (.keyword .fromWord) (takeString "import source")
  let location ← spanFrom start
  finishLine
  return ⟨path, localName, source, some location⟩

/-- One row of a mapped type: inline values with commas between them. -/
def mappedRow : Parser MappedRow := do
  let start := (← peek).start
  let values ← separated .comma inlineValue inlineValue
  let location ← spanFrom start
  finishLine
  return ⟨values, some location⟩

/-- The header `name list of (column, column):` and its rows. -/
def mappedType : Parser MappedType := do
  let start := (← peek).start
  let name ← takeName "mapped type name"
  let _ ← expect (.keyword .listWord) "'list'"
  let _ ← expect (.keyword .ofWord) "'of'"
  let _ ← expect (.opening .paren) "'('"
  let schema ← separated .comma (takeName "column type") (takeName "column type")
  let _ ← expect (.closing .paren) "')'"
  let _ ← expect .colon "':'"
  let rows ← block (.item mappedRow) []
  let location ← spanFrom start
  return ⟨name, schema, rows, some location⟩

def startsMappedType (s : ParserState) : Bool :=
  s.kind.isWordlike && (s.ahead 1).kind == .keyword .listWord &&
    (s.ahead 2).kind == .keyword .ofWord

def settingsLine : LineParser (List Attribute × List MappedType) := fun parts s =>
  if startsMappedType s then
    LineParser.whole (fun (attributes, mappedTypes) => do
      let m ← mappedType
      return (attributes, mappedTypes ++ [m])) parts s
  else
    LineParser.whole (fun (attributes, mappedTypes) => do
      let a ← attributeEntry
      return (attributes ++ [a], mappedTypes)) parts s

/-- The header `agentConfig name?:` or `agentDefaults name?:` and the lines under it. -/
def settingsSection : Parser SettingsSection := do
  let start := (← advance).start
  let name ← takeSectionName "section name"
  let _ ← expect .colon "':'"
  let (attributes, mappedTypes) ← block settingsLine ([], [])
  let location ← spanFrom start
  return ⟨name, attributes, mappedTypes, some location⟩

/-- Fills a place that is still empty; where it is filled already the problem is reported. -/
def fillOnce {α : Type} (old : Option α) (new : α) (cause : ParseCause) (location : Location) :
    Parser (Option α) := do
  match old with
  | none => return some new
  | some a =>
    report cause location
    return some a

/-- One of `displayName: "text"` and `brandName: "text"`. -/
def agentAttribute (p : AgentParts) : Parser AgentParts := do
  let t ← peek
  let key := t.text
  if key != "displayName" && key != "brandName" then fail (.unknownAgentAttribute key) t.location
  else
    let _ ← advance
    let _ ← advance
    let text ← takeString s!"string value for {key}"
    finishLine
    let cause := ParseCause.duplicateAttribute key
    if key == "displayName" then
      return { p with displayName := ← fillOnce p.displayName text cause t.location }
    else return { p with brandName := ← fillOnce p.brandName text cause t.location }

/-- A section or an attribute of an agent. -/
def agentPart (p : AgentParts) : Parser AgentParts := do
  let t ← peek
  match t.kind with
  | .keyword (.opening .agentConfig) =>
    let s ← settingsSection
    return { p with config := ← fillOnce p.config s (.duplicateSection .agentConfig) t.location }
  | .keyword (.opening .agentDefaults) =>
    let s ← settingsSection
    return { p with
      defaults := ← fillOnce p.defaults s (.duplicateSection .agentDefaults) t.location }
  | .keyword (.opening .flow) =>
    let f ← flowSection
    return { p with flows := p.flows ++ [f] }
  | .keyword (.opening .messages) =>
    let m ← messageSection
    return { p with messages := ← fillOnce p.messages m (.duplicateSection .messages) t.location }
  | .keyword (.opening .agent) => fail .nestedAgent t.location
  | _ =>
    if ← look startsEntry then agentAttribute p
    else unexpected "agent attribute or section"

/-- The header `agent name:` and the lines under it. -/
def agent : Parser Agent := do
  let start := (← advance).start
  let name ← takeName "agent name"
  let _ ← expect .colon "':' after agent name"
  let parts ← block (.whole agentPart) .empty
  let location ← spanFrom start
  return .ofParts name parts location

end AgentScript.Parser
