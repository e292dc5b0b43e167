import AgentScript.Token.Keyword
import AgentScript.Tree.Value

/-!
# Messages

A message is written out with attributes or in one of the short forms: a text, a rich
card, a carousel of cards, or a file. Suggestions offer the reader of a message an action.
-/
namespace AgentScript

inductive UrlApplication
  | browser | webview
deriving DecidableEq, Inhabited

inductive WebviewMode
  | full | half | tall
deriving DecidableEq, Inhabited

inductive SuggestionAction
  | reply (postback : Option String)
  | dial (phoneNumber : String)
  | openUrl (url : String) (application : Option UrlApplication) (mode : Option WebviewMode)
  | shareLocation
  | viewLocation (query : Option String)
  | saveEvent (title : String) (startTime endTime : TypeTag) (description : Option String)
deriving DecidableEq, Inhabited

structure Suggestion where
  text : String
  action : SuggestionAction
  location : Option Location
deriving DecidableEq, Inhabited

inductive CardOrientation
  | horizontal | vertical
deriving DecidableEq, Inhabited

inductive ImageAlignment
  | left | right
deriving DecidableEq, Inhabited

inductive MediaHeight
  | short | medium | tall
deriving DecidableEq, Inhabited

inductive CardWidth
  | small | medium
deriving DecidableEq, Inhabited

/-- What all short forms of messages have in common. -/
structure MessageHeader where
  name : Option String
  traffic : Option TrafficType
  suggestions : List Suggestion
  location : Option Location
deriving DecidableEq, Inhabited

structure RichCard where
  header : MessageHeader
  title : String
  description : Option String
  orientation : Option CardOrientation
  alignment : Option ImageAlignment
  height : Option MediaHeight
  imageUrl : Option String
deriving DecidableEq, Inhabited

/-- A message written out with attributes. -/
structure MessageDefinition where
  name : String
  traffic : Option TrafficType
  attributes : List Attribute
  suggestions : List Suggestion
  location : Option Location
deriving Inhabited

inductive Message
  | definition (definition : MessageDefinition)
  | text (header : MessageHeader) (text : String)
  | richCard (card : RichCard)
  | carousel (header : MessageHeader) (width : Option CardWidth) (cards : List RichCard)
  | rbmFile (header : MessageHeader) (fileUrl : String) (thumbnailUrl : Option String)
  | file (header : MessageHeader) (url : String)
deriving Inhabited

namespace Message

/-- The header of a message, which for a written-out message has a name. -/
def header : Message → MessageHeader
  | definition d => ⟨some d.name, d.traffic, d.suggestions, d.location⟩
  | text h _ => h
  | richCard c => c.header
  | carousel h _ _ => h
  | rbmFile h _ _ => h
  | file h _ => h

def name (m : Message) : Option String := m.header.name

def location (m : Message) : Option Location := m.header.location

def suggestions (m : Message) : List Suggestion := m.header.suggestions

end Message

structure MessageSection where
  name : Option String
  messages : List Message
  location : Option Location
deriving Inhabited

end AgentScript
