import AgentScript.Decimal.Reading
import AgentScript.Text.Quoted
import AgentScript.Token.Basic
import AgentScript.Tree.Agent

/-!
# Building nodes

Nodes made of tokens decode the texts of these and take over their locations. A rule has
at least two operands and a when clause at least one destination; a collection is inline
when a bracket of its kind opens it.
-/
namespace AgentScript

/-- Why a node cannot be built. -/
inductive NodeError
  | incompleteFlowRule (found : Nat)
  | incompleteWhenClause
  | invalidNumber (text : String)
deriving DecidableEq

def NodeError.message : NodeError → String
  | incompleteFlowRule found =>
    s!"flow rule needs a source and at least one destination, found {found} operand(s)"
  | incompleteWhenClause => "when clause needs at least one destination"
  | invalidNumber text => s!"invalid number literal '{text}'"

/-- The name of an atom is its text without the colon. -/
def atomName (text : String) : String :=
  match text.toList with
  | ':' :: name => String.ofList name
  | _ => text

/-- The language that a marker names between its dollar signs and its angle brackets. -/
def Language.ofMarker (marker : String) : Language :=
  let tail := marker.toList.dropWhile (· == '$')
  match String.ofList (tail.reverse.dropWhile (· == '>')).reverse with
  | "js" => .javascript
  | "ts" => .typescript
  | _ => .default

namespace Operand

/-- The operand that a single token stands for. Every word names a state. -/
def ofToken? (t : Token) : Option Operand :=
  match t.kind with
  | .atom => some ⟨.atom, atomName t.text, some t.location⟩
  | .string => some ⟨.string, Quoted.decodeString t.text, some t.location⟩
  | k => if k.isWordlike then some ⟨.identifier, t.text, some t.location⟩ else none

end Operand

namespace FlowRule

def build (operands : List Operand) (withClause : Option WithClause)
    (whenClauses : List WhenClause) (location : Location) : Except NodeError FlowRule :=
  if operands.length < 2 then .error (.incompleteFlowRule operands.length)
  else .ok ⟨operands, withClause, whenClauses, some location⟩

theorem two_le_of_build {operands : List Operand} {withClause : Option WithClause}
    {whenClauses : List WhenClause} {location : Location} {r : FlowRule}
    (h : build operands withClause whenClauses location = .ok r) : 2 ≤ r.operands.length := by
  unfold build at h
  split at h
  · exact nomatch h
  · next hn =>
    cases h
    exact Nat.not_lt.mp hn

end FlowRule

namespace WhenClause

def build (condition : Value) (operands : List Operand) (withClause : Option WithClause)
    (location : Location) : Except NodeError WhenClause :=
  if operands.isEmpty then .error .incompleteWhenClause
  else .ok ⟨condition, operands, withClause, some location⟩

end WhenClause

namespace Value

def ofStringToken (t : Token) : Value :=
  .string (Quoted.decodeString t.text) false none (some t.location)

def ofLines (chomping : Chomping) (lines : List String) (location : Location) : Value :=
  .string (chomping.apply lines) true (some chomping) (some location)

def ofNumberToken (t : Token) : Except NodeError Value :=
  match readFloat? t.text with
  | some x => .ok (.number x (some t.location))
  | none => .error (.invalidNumber t.text)

def ofLiteralToken? (t : Token) : Option Value :=
  match t.kind with
  | .literal (.boolean b) => some (.boolean b (some t.location))
  | .literal .null => some (.null (some t.location))
  | _ => none

/-- A name with a space in it is made of several words. -/
def ofName (name : String) (location : Location) : Value :=
  .identifier name (name.toList.contains ' ') (some location)

def ofAtomToken (t : Token) : Value := .atom (atomName t.text) (some t.location)

def opensList : Option TokenKind → Bool
  | some (.opening .paren) | some (.opening .square) => true
  | _ => false

/-- A list after its opening token, if it has one. -/
def ofItems (opener : Option TokenKind) (items : List Value) (location : Location) : Value :=
  .list items (opensList opener) (some location)

/-- A dictionary after its opening token, if it has one. -/
def ofEntries (opener : Option TokenKind) (entries : List (Keyed Value)) (location : Location) :
    Value :=
  .dictionary entries (opener == some (.opening .curly)) (some location)

/-- An expression covers its marker and its code. -/
def ofExpression (marker : Token) (code : Option Token) : Value :=
  let location := match code with
    | some c => marker.location.cover c.location
    | none => marker.location
  .expression (Language.ofMarker marker.text) ((code.map (·.text)).getD "") (some location)

def ofCodeBlock (marker : Token) (lines : List String) (location : Location) : Value :=
  .codeBlock (Language.ofMarker marker.text) (dedentLines lines) (some location)

end Value

/-- The body of an agent as far as it has been read. -/
structure AgentParts where
  displayName : Option String
  brandName : Option String
  config : Option SettingsSection
  defaults : Option SettingsSection
  flows : List Flow
  messages : Option MessageSection
deriving Inhabited

def AgentParts.empty : AgentParts := ⟨none, none, none, none, [], none⟩

def Agent.ofParts (name : String) (p : AgentParts) (location : Location) : Agent :=
  ⟨name, p.displayName, p.brandName, p.config, p.defaults, p.flows, p.messages, some location⟩

/-- The options and contents of a rich card as far as they have been read. -/
structure CardParts where
  orientation : Option CardOrientation
  alignment : Option ImageAlignment
  height : Option MediaHeight
  imageUrl : Option String
  description : Option String
  suggestions : List Suggestion
deriving Inhabited

def CardParts.empty : CardParts := ⟨none, none, none, none, none, []⟩

def RichCard.ofParts (name : Option String) (traffic : Option TrafficType) (title : String)
    (p : CardParts) (location : Location) : RichCard :=
  ⟨⟨name, traffic, p.suggestions, some location⟩, title, p.description, p.orientation,
    p.alignment, p.height, p.imageUrl⟩

end AgentScript
