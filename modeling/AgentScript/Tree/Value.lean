import AgentScript.Source.Position
import AgentScript.Text.Chomping

/-!
# Values

The values of attributes, list items, dictionary entries and conditions. Every node may
carry the location it was read from; nodes made without a text carry none.
-/
namespace AgentScript

/-- The language of embedded code. -/
inductive Language
  | javascript
  | typescript
  /-- The default of the host. -/
  | default
deriving DecidableEq, Inhabited

/-- Text in angle brackets, with the name of its type and a modifier if there are any. -/
structure TypeTag where
  typeName : Option String
  value : String
  modifier : Option String
  location : Option Location
deriving DecidableEq, Inhabited

/-- Something under a key: an attribute, a parameter or a dictionary entry. -/
structure Keyed (α : Type) where
  key : String
  value : α
  location : Option Location
deriving DecidableEq, Inhabited

inductive Value
  | string (text : String) (isMultiline : Bool) (chomping : Option Chomping)
      (location : Option Location)
  | number (value : Float) (location : Option Location)
  | boolean (value : Bool) (location : Option Location)
  | null (location : Option Location)
  | identifier (name : String) (isSpaceSeparated : Bool) (location : Option Location)
  | atom (name : String) (location : Option Location)
  | typeTag (tag : TypeTag)
  | list (items : List Value) (isInline : Bool) (location : Option Location)
  | dictionary (entries : List (Keyed Value)) (isInline : Bool) (location : Option Location)
  | expression (language : Language) (code : String) (location : Option Location)
  | codeBlock (language : Language) (lines : List String) (location : Option Location)
deriving Inhabited

abbrev Attribute := Keyed Value

namespace Value

def location : Value → Option Location
  | string _ _ _ l => l
  | number _ l => l
  | boolean _ l => l
  | null l => l
  | identifier _ _ l => l
  | atom _ l => l
  | typeTag t => t.location
  | list _ _ l => l
  | dictionary _ _ l => l
  | expression _ _ l => l
  | codeBlock _ _ l => l

/-- The text of a string. -/
def text? : Value → Option String
  | string text _ _ _ => some text
  | _ => none

end Value

/-- The value under the first occurrence of a key. -/
def Keyed.find? {α : Type} (entries : List (Keyed α)) (key : String) : Option α :=
  (entries.find? (·.key == key)).map (·.value)

end AgentScript
