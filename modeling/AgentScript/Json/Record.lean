import AgentScript.Json.Basic

/-!
# Records, words and unions in JSON

A record is an object whose absent fields are left out. A required field has to be there;
an optional one may be missing or null; a field with a default may be missing only.

A record is also read from the list of its fields in their order. Such a list gives null for
a field it has to pass over and may stop early where all fields that are left have a default.

A member of a union is a record with the name of its type under `type`, or a list that starts
with that name. A word is its text, or an object with the text as its only key and nothing
under it. Inside a member a type may also be given by its place in the union, and an empty
object is nothing as well.
-/
namespace AgentScript.Json

/-- The object of the fields that have a value. -/
def record (fields : List (String × Option Json)) : Json :=
  obj (fields.filterMap fun (key, value) => value.map fun v => (key, v))

/-- The names of the fields of a record in their order. A list has to give all the leading
ones and may stop anywhere in the trailing ones. -/
structure Shape where
  leading : List String
  trailing : List String

namespace Shape

def names (s : Shape) : List String := s.leading ++ s.trailing

/-- The record with its fields under their names. -/
def record? (s : Shape) : Json → Option Json
  | obj fields => some (obj fields)
  | arr items =>
    if s.leading.length ≤ items.length && items.length ≤ s.names.length then
      some (obj (s.names.zip items))
    else none
  | _ => none

@[simp]
theorem record?_obj (s : Shape) (fields : List (String × Json)) :
    s.record? (obj fields) = some (obj fields) := rfl

@[simp]
theorem record?_record (s : Shape) (fields : List (String × Option Json)) :
    s.record? (record fields) = some (record fields) := rfl

end Shape

def required {α : Type} (decode : Json → Option α) (key : String) (v : Json) : Option α :=
  (v.field? key).bind decode

def optional {α : Type} (decode : Json → Option α) (key : String) (v : Json) : Option (Option α) :=
  match v.field? key with
  | none => some none
  | some null => some none
  | some x => (decode x).map some

def defaulted {α : Type} (value : α) (decode : Json → Option α) (key : String) (v : Json) :
    Option α :=
  match v.field? key with
  | none => some value
  | some x => decode x

def listOf {α : Type} (decode : Json → Option α) : Json → Option (List α)
  | arr items => items.mapM decode
  | _ => none

def strings? : Json → Option (List String) := listOf str?

/-- A list under a name, left out when it is empty. -/
def nonEmpty (items : List Json) : Option Json :=
  if items.isEmpty then none else some (arr items)

/-- Whether a value stands inside a member of a union. -/
inductive Site where
  | outside
  | inside

def isNothing : Site → Json → Bool
  | _, null => true
  | .inside, obj [] => true
  | _, _ => false

def word? (site : Site) : Json → Option String
  | str s => some s
  | obj [(s, v)] => if isNothing site v then some s else none
  | _ => none

/-- The value that one of the words in a table stands for. -/
def wordIn? {α : Type} (table : List (String × α)) (site : Site) (v : Json) : Option α :=
  (word? site v).bind (table.lookup ·)

/-- The name of a type of a union. Places are counted from zero. -/
def typeName? (types : List String) : Site → Json → Option String
  | _, str s => some s
  | .inside, v => (nat? types.length v).bind (types[·]?)
  | .outside, _ => none

/-- The name of a member's type, and the member with its fields under their names. -/
def member? (shapes : List (String × Shape)) (site : Site) (v : Json) : Option (String × Json) := do
  let (type, fields) ← match v with
    | obj fields => (fields.lookup "type").map (·, obj fields)
    | arr (type :: fields) => some (type, arr fields)
    | _ => none
  let name ← typeName? (shapes.map (·.1)) site type
  let shape ← shapes.lookup name
  return (name, ← shape.record? fields)

/-- The record of a member of a union. -/
def tagged (type : String) (fields : List (String × Option Json)) : Json :=
  record (("type", some (str type)) :: fields)

/-- A member written as an object is read as it stands. -/
theorem member?_tagged (shapes : List (String × Shape)) (site : Site) (type : String)
    (fields : List (String × Option Json)) :
    member? shapes site (tagged type fields) =
      (shapes.lookup type).map fun _ => (type, tagged type fields) := by
  cases h : shapes.lookup type <;> cases site <;>
    simp [member?, tagged, record, typeName?, Shape.record?, h]

end AgentScript.Json
