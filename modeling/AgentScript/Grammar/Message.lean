import AgentScript.Grammar.Value

/-!
# Parsing messages

A message is a name with attributes below it, or a short form named by its keyword. A
traffic type may stand before either. Suggestions stand below their message, directly or
in a block of their own.
-/
namespace AgentScript

/-- The parts of a card with one more option. -/
def CardParts.withOption? (c : CardParts) : String → Option CardParts
  | "horizontal" => some { c with orientation := some .horizontal }
  | "vertical" => some { c with orientation := some .vertical }
  | "left" => some { c with alignment := some .left }
  | "right" => some { c with alignment := some .right }
  | "short" => some { c with height := some .short }
  | "medium" => some { c with height := some .medium }
  | "tall" => some { c with height := some .tall }
  | _ => none

/-- The width that an option gives a carousel, in place of any other. -/
def CardWidth.ofOption? (_ : Option CardWidth) : String → Option (Option CardWidth)
  | "small" => some (some .small)
  | "medium" => some (some .medium)
  | _ => none

/-- How a URL is to be opened. -/
structure UrlOptions where
  application : Option UrlApplication
  mode : Option WebviewMode

def UrlOptions.withOption? (o : UrlOptions) : String → Option UrlOptions
  | "browser" => some { o with application := some .browser }
  | "webview" => some { o with application := some .webview }
  | "full" => some { o with mode := some .full }
  | "half" => some { o with mode := some .half }
  | "tall" => some { o with mode := some .tall }
  | _ => none

namespace Parser

/-- A URL: the value of a type tag, or a string. -/
def url (what : String) : Parser String := do
  match ← kind with
  | .lt => return (← typeTag).value
  | .string => return Quoted.decodeString (← advance).text
  | _ => unexpected what

def optionalUrl (what : String) : Parser (Option String) := do
  match ← kind with
  | .lt => return some (← url what)
  | .string => return some (← url what)
  | _ => return none

def optionalString (what : String) : Parser (Option String) := do
  if ← check .string then return some (← takeString what) else return none

/-- The word of an option in the form of an atom. -/
def optionName (t : Token) : String := String.ofList (t.text.toList.dropWhile (· == ':'))

/-- Applies the option of an atom; an unknown one is reported and changes nothing. -/
def applyOption {α : Type} (place : OptionPlace) (apply : α → String → Option α) (a : α)
    (t : Token) : Parser α := do
  match apply a (optionName t) with
  | some b => return b
  | none =>
    report (.unknownOption place (optionName t)) t.location
    return a

/-- Applies the options that follow each other here, at most `fuel` of them. -/
def options {α : Type} (place : OptionPlace) (apply : α → String → Option α) : Nat → α → Parser α
  | 0, a => return a
  | fuel + 1, a => do
    if ← check .atom then
      let t ← advance
      let a ← applyOption place apply a t
      options place apply fuel a
    else return a

/-- The options and images of a rich card, in any order; the last of a sort counts. -/
def cardOptions : Nat → CardParts → Parser CardParts
  | 0, c => return c
  | fuel + 1, c => do
    match ← kind with
    | .atom =>
      let t ← advance
      let c ← applyOption .richCard CardParts.withOption? c t
      cardOptions fuel c
    | .lt =>
      let image ← url "image URL"
      cardOptions fuel { c with imageUrl := some image }
    | .string =>
      let image ← url "image URL"
      cardOptions fuel { c with imageUrl := some image }
    | _ => return c

def time (what : String) : Parser TypeTag := do
  if ← check .lt then typeTag else unexpected what

def suggestionAction : SuggestionForm → Parser SuggestionAction
  | .reply => return .reply (← optionalString "postback data")
  | .dial => return .dial (← url "phone number")
  | .openUrl => do
    let target ← url "URL"
    let o ← options .openUrl UrlOptions.withOption? (← lineLeft) ⟨none, none⟩
    return .openUrl target o.application o.mode
  | .shareLocation => return .shareLocation
  | .viewLocation => return .viewLocation (← optionalUrl "location query")
  | .saveEvent => do
    let title ← takeString "event title"
    let startTime ← time "event start time"
    let endTime ← time "event end time"
    let description ← optionalString "event description"
    return .saveEvent title startTime endTime description

/-- A suggestion with the end of its line. -/
def suggestion : Parser Suggestion := do
  match ← kind with
  | .keyword (.suggestion form) =>
    let start := (← advance).start
    let text ← takeString "suggestion text"
    let action ← suggestionAction form
    let location ← spanFrom start
    finishLine
    return ⟨text, action, some location⟩
  | .commonNoun => failHere fun t => .unknownSuggestionForm t.text
  | _ => unexpected "suggestion"

def suggestionBlock : Parser (List Suggestion) := block (.item suggestion) []

/-- Whether a word and a colon come next. -/
def startsEntry (s : ParserState) : Bool := s.kind.isWordlike && (s.ahead 1).kind == .colon

/-- Whether a line begins with the word and a colon. -/
def startsWith (word : String) (s : ParserState) : Bool :=
  s.current.text == word && (s.ahead 1).kind == .colon

/-- A description, which counts as soon as it is read, or a suggestion. -/
def cardLine : LineParser CardParts := fun c s =>
  if startsWith "description" s then
    LineParser.thenFinish (.whole fun c => do
      let _ ← advance
      let _ ← advance
      let description ← takeString "card description"
      return { c with description := some description }) c s
  else
    LineParser.whole (fun c => do
      let x ← suggestion
      return { c with suggestions := c.suggestions ++ [x] }) c s

/-- A card `richCard name? "title"` with options and images, and the lines under it. -/
def richCard (traffic : Option TrafficType) : Parser RichCard := do
  let start := (← expect (.keyword (.form .richCard)) "'richCard'").start
  let name ← takeOptionalName
  let title ← takeString "rich card title"
  let parts ← cardOptions (← lineLeft) .empty
  let parts ← block cardLine parts
  let location ← spanFrom start
  return .ofParts name traffic title parts location

def textMessage (traffic : Option TrafficType) : Parser Message := do
  let start := (← advance).start
  let name ← takeOptionalName
  let text ← takeString "message text"
  let suggestions ← suggestionBlock
  let location ← spanFrom start
  return .text ⟨name, traffic, suggestions, some location⟩ text

/-- A card or a suggestion of a carousel. -/
def carouselLine : LineParser (List RichCard × List Suggestion) :=
  .whole fun (cards, suggestions) => do
    if ← check (.keyword (.form .richCard)) then
      let card ← richCard none
      return (cards ++ [card], suggestions)
    else
      let x ← suggestion
      return (cards, suggestions ++ [x])

def carousel (traffic : Option TrafficType) : Parser Message := do
  let start := (← advance).start
  let name ← takeOptionalName
  let width ← options .carousel CardWidth.ofOption? (← lineLeft) none
  let (cards, suggestions) ← block carouselLine ([], [])
  let location ← spanFrom start
  return .carousel ⟨name, traffic, suggestions, some location⟩ width cards

def rbmFile (traffic : Option TrafficType) : Parser Message := do
  let start := (← advance).start
  let name ← takeOptionalName
  let fileUrl ← url "file URL"
  let thumbnailUrl ← optionalUrl "thumbnail URL"
  let suggestions ← suggestionBlock
  let location ← spanFrom start
  return .rbmFile ⟨name, traffic, suggestions, some location⟩ fileUrl thumbnailUrl

def file (traffic : Option TrafficType) : Parser Message := do
  let start := (← advance).start
  let name ← takeOptionalName
  let target ← url "file URL"
  let suggestions ← suggestionBlock
  let location ← spanFrom start
  return .file ⟨name, traffic, suggestions, some location⟩ target

/-- An attribute `key: value` with the end of its line. -/
def attributeEntry : Parser Attribute :=
  keyedLine "attribute name" "':' after attribute name" value

/-- A suggestion, a block of suggestions, or an attribute of a written-out message. -/
def definitionLine : LineParser (List Attribute × List Suggestion) := fun parts s =>
  if (match s.kind with | .keyword (.suggestion _) => true | _ => false) &&
      (s.ahead 1).kind != .colon then
    LineParser.whole (fun (attributes, suggestions) => do
      let x ← suggestion
      return (attributes, suggestions ++ [x])) parts s
  else if startsWith "suggestions" s then
    LineParser.whole (fun (attributes, suggestions) => do
      let _ ← advance
      let _ ← advance
      let suggestions ← block (.item suggestion) suggestions
      return (attributes, suggestions)) parts s
  else
    LineParser.whole (fun (attributes, suggestions) => do
      let a ← attributeEntry
      return (attributes ++ [a], suggestions)) parts s

/-- A message `name:` and the lines under it. -/
def messageDefinition (traffic : Option TrafficType) : Parser Message := do
  let start := (← peek).start
  let name ← takeName "message name"
  let _ ← expect .colon "':' after message name"
  let (attributes, suggestions) ← block definitionLine ([], [])
  let location ← spanFrom start
  return .definition ⟨name, traffic, attributes, suggestions, some location⟩

def shortForm (traffic : Option TrafficType) : MessageForm → Parser Message
  | .text => textMessage traffic
  | .richCard => return .richCard (← richCard traffic)
  | .carousel => carousel traffic
  | .rbmFile => rbmFile traffic
  | .file => file traffic

def takeTraffic : Parser (Option TrafficType) := do
  match (← kind).traffic? with
  | some t =>
    let _ ← advance
    return some t
  | none => return none

def message : Parser Message := do
  let traffic ← takeTraffic
  let k ← kind
  match k with
  | .keyword (.form form) => shortForm traffic form
  | .keyword .message =>
    let _ ← advance
    messageDefinition traffic
  | .keyword (.suggestion _) => failHere fun t => .straySuggestion t.text
  | _ =>
    if ← look startsEntry then messageDefinition traffic
    else if k == .commonNoun then failHere fun t => .unknownMessageForm t.text
    else unexpected "message"

/-- The header `messages name?:` and its messages. -/
def messageSection : Parser MessageSection := do
  let start := (← advance).start
  let name ← takeSectionName "messages section name"
  let _ ← expect .colon "':'"
  let messages ← block (.item message) []
  let location ← spanFrom start
  return ⟨name, messages, some location⟩

end Parser

end AgentScript
