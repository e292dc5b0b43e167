import AgentScript.Tree.Flow
import AgentScript.Tree.Message

/-!
# Agents and files

A file imports names from other files and defines at most one agent: its display names,
its settings and their defaults, its flows and its messages.
-/
namespace AgentScript

/-- One row of a mapped type. -/
structure MappedRow where
  values : List Value
  location : Option Location
deriving Inhabited

/-- A list of rows whose columns have names. -/
structure MappedType where
  name : String
  schema : List String
  rows : List MappedRow
  location : Option Location
deriving Inhabited

structure SettingsSection where
  name : Option String
  attributes : List Attribute
  mappedTypes : List MappedType
  location : Option Location
deriving Inhabited

/-- The value of the first attribute with a key. -/
def SettingsSection.attribute? (s : SettingsSection) (key : String) : Option Value :=
  Keyed.find? s.attributes key

structure Agent where
  name : String
  displayName : Option String
  brandName : Option String
  config : Option SettingsSection
  defaults : Option SettingsSection
  flows : List Flow
  messages : Option MessageSection
  location : Option Location
deriving Inhabited

structure Import where
  path : List String
  /-- The name under which the import is used here. -/
  localName : Option String
  source : Option String
  location : Option Location
deriving DecidableEq, Inhabited

structure SourceFile where
  imports : List Import
  agent : Option Agent
  location : Option Location
deriving Inhabited

end AgentScript
