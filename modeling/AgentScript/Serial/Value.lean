import AgentScript.Serial.Source
import AgentScript.Tree.Value

/-!
# Values in JSON

A value is a member of the union of its forms.
-/
namespace AgentScript

open Json

def Language.names : List (String × Language) :=
  [("javascript", .javascript), ("typescript", .typescript), ("default", .default)]

def Language.toJson : Language → Json
  | .javascript => str "javascript"
  | .typescript => str "typescript"
  | .default => str "default"

def Language.ofJson? : Site → Json → Option Language := wordIn? names

def Chomping.names : List (String × Chomping) :=
  [("clean", .clean), ("strip", .strip), ("preserve", .preserve), ("preserveAll", .preserveAll)]

def Chomping.toJson : Chomping → Json
  | .clean => str "clean"
  | .strip => str "strip"
  | .preserve => str "preserve"
  | .preserveAll => str "preserveAll"

def Chomping.ofJson? : Site → Json → Option Chomping := wordIn? names

def TypeTag.fields (t : TypeTag) : List (String × Option Json) :=
  [("typeName", some ((t.typeName.map str).getD null)), ("value", some (str t.value)),
    ("modifier", t.modifier.map str), locationField t.location]

def TypeTag.toJson (t : TypeTag) : Json := record t.fields

def TypeTag.shape : Shape := .node ["typeName", "value"] ["modifier"]

def TypeTag.ofJson? (v : Json) : Option TypeTag := do
  let v ← TypeTag.shape.record? v
  let typeName ← optional str? "typeName" v
  let value ← required str? "value" v
  let modifier ← optional str? "modifier" v
  let location ← location? v
  return ⟨typeName, value, modifier, location⟩

def Keyed.ofJson? {α : Type} (decode : Json → Option α) (v : Json) : Option (Keyed α) := do
  let v ← Shape.record? (.node ["key", "value"] []) v
  let key ← required str? "key" v
  let value ← required decode "value" v
  let location ← location? v
  return ⟨key, value, location⟩

mutual

def Value.toJson : Value → Json
  | .string text isMultiline chomping location =>
    tagged "StringValue" [("value", some (str text)), ("isMultiline", some (bool isMultiline)),
      ("chomping", chomping.map (·.toJson)), locationField location]
  | .number value location =>
    tagged "NumberValue" [("value", some (ofFloat value)), locationField location]
  | .boolean value location =>
    tagged "BooleanValue" [("value", some (bool value)), locationField location]
  | .null location => tagged "NullValue" [locationField location]
  | .identifier name isSpaceSeparated location =>
    tagged "IdentifierValue" [("name", some (str name)),
      ("isSpaceSeparated", some (bool isSpaceSeparated)), locationField location]
  | .atom name location => tagged "AtomValue" [("name", some (str name)), locationField location]
  | .typeTag tag => tagged "TypeTag" tag.fields
  | .list items isInline location =>
    tagged "ListValue" [("items", some (arr (Value.listToJson items))),
      ("isInline", some (bool isInline)), locationField location]
  | .dictionary entries isInline location =>
    tagged "DictionaryValue" [("entries", some (arr (Value.entriesToJson entries))),
      ("isInline", some (bool isInline)), locationField location]
  | .expression language code location =>
    tagged "EmbeddedExpression" [("language", some language.toJson), ("content", some (str code)),
      locationField location]
  | .codeBlock language lines location =>
    tagged "EmbeddedCodeBlock" [("language", some language.toJson),
      ("content", some (arr (lines.map str))), locationField location]

def Value.listToJson : List Value → List Json
  | [] => []
  | v :: rest => v.toJson :: Value.listToJson rest

def Value.entriesToJson : List (Keyed Value) → List Json
  | [] => []
  | ⟨key, value, location⟩ :: rest =>
    record [("key", some (str key)), ("value", some value.toJson), locationField location] ::
      Value.entriesToJson rest

end

def Value.shapes : List (String × Shape) :=
  [("StringValue", .node ["value"] ["isMultiline", "chomping"]),
    ("NumberValue", .node ["value"] []),
    ("BooleanValue", .node ["value"] []),
    ("NullValue", .node [] []),
    ("IdentifierValue", .node ["name"] ["isSpaceSeparated"]),
    ("AtomValue", .node ["name"] []),
    ("TypeTag", TypeTag.shape),
    ("ListValue", .node ["items", "isInline"] []),
    ("DictionaryValue", .node ["entries", "isInline"] []),
    ("EmbeddedExpression", .node ["language", "content"] []),
    ("EmbeddedCodeBlock", .node ["language", "content"] [])]

/-- Decodes a value whose nested values lie less than `depth` deep. -/
def Value.decode? : Nat → Site → Json → Option Value
  | 0, _, _ => none
  | depth + 1, site, v => do
    let (type, v) ← member? Value.shapes site v
    let location ← location? v
    match type with
    | "StringValue" =>
      return .string (← required str? "value" v) (← defaulted false bool? "isMultiline" v)
        (← optional (Chomping.ofJson? .inside) "chomping" v) location
    | "NumberValue" => return .number (← required float? "value" v) location
    | "BooleanValue" => return .boolean (← required bool? "value" v) location
    | "NullValue" => return .null location
    | "IdentifierValue" =>
      return .identifier (← required str? "name" v) (← defaulted false bool? "isSpaceSeparated" v)
        location
    | "AtomValue" => return .atom (← required str? "name" v) location
    | "TypeTag" => return .typeTag (← TypeTag.ofJson? v)
    | "ListValue" =>
      return .list (← required (listOf (Value.decode? depth .inside)) "items" v)
        (← required bool? "isInline" v) location
    | "DictionaryValue" =>
      let entry := Keyed.ofJson? (Value.decode? depth .inside)
      return .dictionary (← required (listOf entry) "entries" v)
        (← required bool? "isInline" v) location
    | "EmbeddedExpression" =>
      return .expression (← required (Language.ofJson? .inside) "language" v)
        (← required str? "content" v) location
    | "EmbeddedCodeBlock" =>
      return .codeBlock (← required (Language.ofJson? .inside) "language" v)
        (← required strings? "content" v) location
    | _ => none

def Value.ofJson? (site : Site) (v : Json) : Option Value := Value.decode? v.depth site v

def Attribute.toJson (a : Attribute) : Json :=
  record [("key", some (str a.key)), ("value", some a.value.toJson), locationField a.location]

def Attribute.ofJson? (site : Site) : Json → Option Attribute := Keyed.ofJson? (Value.ofJson? site)

end AgentScript
