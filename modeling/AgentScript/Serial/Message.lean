import AgentScript.Serial.Value
import AgentScript.Tree.Message

/-!
# Messages in JSON
-/
namespace AgentScript

open Json

def TrafficType.toJson (t : TrafficType) : Json := str t.word

def TrafficType.ofJson? : Site → Json → Option TrafficType :=
  wordIn? [("transactional", .transactional), ("promotional", .promotional),
    ("acknowledgement", .acknowledgement), ("authentication", .authentication),
    ("serviceRequest", .serviceRequest)]

def UrlApplication.toJson : UrlApplication → Json
  | .browser => str "browser"
  | .webview => str "webview"

def UrlApplication.ofJson? : Site → Json → Option UrlApplication :=
  wordIn? [("browser", .browser), ("webview", .webview)]

def WebviewMode.toJson : WebviewMode → Json
  | .full => str "full"
  | .half => str "half"
  | .tall => str "tall"

def WebviewMode.ofJson? : Site → Json → Option WebviewMode :=
  wordIn? [("full", .full), ("half", .half), ("tall", .tall)]

def CardOrientation.toJson : CardOrientation → Json
  | .horizontal => str "horizontal"
  | .vertical => str "vertical"

def CardOrientation.ofJson? : Site → Json → Option CardOrientation :=
  wordIn? [("horizontal", .horizontal), ("vertical", .vertical)]

def ImageAlignment.toJson : ImageAlignment → Json
  | .left => str "left"
  | .right => str "right"

def ImageAlignment.ofJson? : Site → Json → Option ImageAlignment :=
  wordIn? [("left", .left), ("right", .right)]

def MediaHeight.toJson : MediaHeight → Json
  | .short => str "short"
  | .medium => str "medium"
  | .tall => str "tall"

def MediaHeight.ofJson? : Site → Json → Option MediaHeight :=
  wordIn? [("short", .short), ("medium", .medium), ("tall", .tall)]

def CardWidth.toJson : CardWidth → Json
  | .small => str "small"
  | .medium => str "medium"

def CardWidth.ofJson? : Site → Json → Option CardWidth :=
  wordIn? [("small", .small), ("medium", .medium)]

def Suggestion.toJson (s : Suggestion) : Json :=
  let text : String × Option Json := ("text", some (str s.text))
  let location := locationField s.location
  match s.action with
  | .reply postback => tagged "ReplyShortcut" [text, ("postbackData", postback.map str), location]
  | .dial phoneNumber =>
    tagged "DialShortcut" [text, ("phoneNumber", some (str phoneNumber)), location]
  | .openUrl url application mode =>
    tagged "OpenUrlShortcut" [text, ("url", some (str url)),
      ("application", application.map (·.toJson)), ("webviewMode", mode.map (·.toJson)), location]
  | .shareLocation => tagged "ShareLocationShortcut" [text, location]
  | .viewLocation query => tagged "ViewLocationShortcut" [text, ("query", query.map str), location]
  | .saveEvent title startTime endTime description =>
    tagged "SaveEventShortcut" [text, ("title", some (str title)),
      ("startTime", some startTime.toJson), ("endTime", some endTime.toJson),
      ("description", description.map str), location]

def Suggestion.shapes : List (String × Shape) :=
  [("ReplyShortcut", .node ["text"] ["postbackData"]),
    ("DialShortcut", .node ["text", "phoneNumber"] []),
    ("OpenUrlShortcut", .node ["text", "url"] ["application", "webviewMode"]),
    ("ShareLocationShortcut", .node ["text"] []),
    ("ViewLocationShortcut", .node ["text"] ["query"]),
    ("SaveEventShortcut", .node ["text", "title", "startTime", "endTime"] ["description"])]

/-- The action of a suggestion of a type, from the suggestion's fields. -/
def SuggestionAction.ofFields? (type : String) (v : Json) : Option SuggestionAction := do
  match type with
  | "ReplyShortcut" => return .reply (← optional str? "postbackData" v)
  | "DialShortcut" => return .dial (← required str? "phoneNumber" v)
  | "OpenUrlShortcut" =>
    return .openUrl (← required str? "url" v)
      (← optional (UrlApplication.ofJson? .inside) "application" v)
      (← optional (WebviewMode.ofJson? .inside) "webviewMode" v)
  | "ShareLocationShortcut" => return .shareLocation
  | "ViewLocationShortcut" => return .viewLocation (← optional str? "query" v)
  | "SaveEventShortcut" =>
    return .saveEvent (← required str? "title" v) (← required TypeTag.ofJson? "startTime" v)
      (← required TypeTag.ofJson? "endTime" v) (← optional str? "description" v)
  | _ => none

def Suggestion.ofJson? (site : Site) (v : Json) : Option Suggestion := do
  let (type, v) ← member? Suggestion.shapes site v
  let text ← required str? "text" v
  let action ← SuggestionAction.ofFields? type v
  let location ← location? v
  return ⟨text, action, location⟩

namespace MessageHeader

/-- The fields written before the content of a message. -/
def leadingFields (h : MessageHeader) : List (String × Option Json) :=
  [("name", h.name.map str), ("trafficType", h.traffic.map (·.toJson))]

/-- The fields written after it. -/
def trailingFields (h : MessageHeader) : List (String × Option Json) :=
  [("suggestions", some (arr (h.suggestions.map (·.toJson)))), locationField h.location]

def wrap (h : MessageHeader) (content : List (String × Option Json)) :
    List (String × Option Json) :=
  h.leadingFields ++ content ++ h.trailingFields

def ofFields? (v : Json) : Option MessageHeader := do
  let name ← optional str? "name" v
  let traffic ← optional (TrafficType.ofJson? .inside) "trafficType" v
  let suggestions ← required (listOf (Suggestion.ofJson? .inside)) "suggestions" v
  let location ← location? v
  return ⟨name, traffic, suggestions, location⟩

end MessageHeader

def RichCard.fields (c : RichCard) : List (String × Option Json) :=
  c.header.wrap [("title", some (str c.title)), ("description", c.description.map str),
    ("orientation", c.orientation.map (·.toJson)), ("alignment", c.alignment.map (·.toJson)),
    ("height", c.height.map (·.toJson)), ("imageUrl", c.imageUrl.map str)]

def RichCard.toJson (c : RichCard) : Json := record c.fields

def RichCard.shape : Shape :=
  .node ["name", "trafficType", "title", "description", "orientation", "alignment", "height",
    "imageUrl", "suggestions"] []

/-- Cards stand inside messages only. -/
def RichCard.ofJson? (v : Json) : Option RichCard := do
  let v ← RichCard.shape.record? v
  let header ← MessageHeader.ofFields? v
  let title ← required str? "title" v
  let description ← optional str? "description" v
  let orientation ← optional (CardOrientation.ofJson? .inside) "orientation" v
  let alignment ← optional (ImageAlignment.ofJson? .inside) "alignment" v
  let height ← optional (MediaHeight.ofJson? .inside) "height" v
  let imageUrl ← optional str? "imageUrl" v
  return ⟨header, title, description, orientation, alignment, height, imageUrl⟩

def MessageDefinition.fields (d : MessageDefinition) : List (String × Option Json) :=
  [("name", some (str d.name)), ("trafficType", d.traffic.map (·.toJson)),
    ("attributes", some (arr (d.attributes.map (·.toJson)))),
    ("suggestions", some (arr (d.suggestions.map (·.toJson)))), locationField d.location]

def MessageDefinition.ofFields? (v : Json) : Option MessageDefinition := do
  let name ← required str? "name" v
  let traffic ← optional (TrafficType.ofJson? .inside) "trafficType" v
  let attributes ← required (listOf (Attribute.ofJson? .inside)) "attributes" v
  let suggestions ← required (listOf (Suggestion.ofJson? .inside)) "suggestions" v
  let location ← location? v
  return ⟨name, traffic, attributes, suggestions, location⟩

def Message.toJson : Message → Json
  | .definition d => tagged "MessageDefinition" d.fields
  | .text h body => tagged "TextShortcut" (h.wrap [("text", some (str body))])
  | .richCard c => tagged "RichCardShortcut" c.fields
  | .carousel h width cards =>
    tagged "CarouselShortcut" (h.wrap [("cardWidth", width.map (·.toJson)),
      ("cards", some (arr (cards.map (·.toJson))))])
  | .rbmFile h fileUrl thumbnailUrl =>
    tagged "RbmFileShortcut" (h.wrap [("fileUrl", some (str fileUrl)),
      ("thumbnailUrl", thumbnailUrl.map str)])
  | .file h url => tagged "FileShortcut" (h.wrap [("url", some (str url))])

def Message.shapes : List (String × Shape) :=
  [("MessageDefinition", .node ["name", "trafficType", "attributes", "suggestions"] []),
    ("TextShortcut", .node ["name", "trafficType", "text", "suggestions"] []),
    ("RichCardShortcut", RichCard.shape),
    ("CarouselShortcut", .node ["name", "trafficType", "cardWidth", "cards", "suggestions"] []),
    ("RbmFileShortcut",
      .node ["name", "trafficType", "fileUrl", "thumbnailUrl", "suggestions"] []),
    ("FileShortcut", .node ["name", "trafficType", "url", "suggestions"] [])]

def Message.ofJson? (v : Json) : Option Message := do
  let (type, v) ← member? Message.shapes .outside v
  match type with
  | "MessageDefinition" => return .definition (← MessageDefinition.ofFields? v)
  | "TextShortcut" => return .text (← MessageHeader.ofFields? v) (← required str? "text" v)
  | "RichCardShortcut" => return .richCard (← RichCard.ofJson? v)
  | "CarouselShortcut" =>
    return .carousel (← MessageHeader.ofFields? v)
      (← optional (CardWidth.ofJson? .inside) "cardWidth" v)
      (← required (listOf RichCard.ofJson?) "cards" v)
  | "RbmFileShortcut" =>
    return .rbmFile (← MessageHeader.ofFields? v) (← required str? "fileUrl" v)
      (← optional str? "thumbnailUrl" v)
  | "FileShortcut" => return .file (← MessageHeader.ofFields? v) (← required str? "url" v)
  | _ => none

def MessageSection.toJson (s : MessageSection) : Json :=
  record [("name", s.name.map str), ("messages", some (arr (s.messages.map (·.toJson)))),
    locationField s.location]

def MessageSection.ofJson? (v : Json) : Option MessageSection := do
  let v ← Shape.record? (.node ["name", "messages"] []) v
  let name ← optional str? "name" v
  let messages ← required (listOf Message.ofJson?) "messages" v
  let location ← location? v
  return ⟨name, messages, location⟩

end AgentScript
