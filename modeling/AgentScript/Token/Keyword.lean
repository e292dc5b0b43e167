/-!
# Words with a fixed meaning

Literal words denote truth values and the absence of a value. Keywords introduce imports,
sections, flow clauses, messages and suggestions, or give a message its traffic type.
-/
namespace AgentScript

/-- The purpose of a message, as declared to the carrier. -/
inductive TrafficType
  | transactional | promotional | acknowledgement | authentication | serviceRequest
deriving DecidableEq, Inhabited

inductive MessageForm
  | text | richCard | carousel | rbmFile | file
deriving DecidableEq, Inhabited

inductive SuggestionForm
  | reply | dial | openUrl | shareLocation | viewLocation | saveEvent
deriving DecidableEq, Inhabited

inductive SectionForm
  | agent | agentConfig | agentDefaults | flow | messages
deriving DecidableEq, Inhabited

inductive Keyword
  | importWord | asWord | fromWord
  | opening (form : SectionForm)
  | message
  | withWord | whenWord | listWord | ofWord
  | form (form : MessageForm)
  | suggestion (form : SuggestionForm)
  | traffic (type : TrafficType)
deriving DecidableEq, Inhabited

inductive LiteralWord
  | boolean (value : Bool)
  | null
deriving DecidableEq, Inhabited

namespace TrafficType

def all : List TrafficType :=
  [transactional, promotional, acknowledgement, authentication, serviceRequest]

def word : TrafficType → String
  | transactional => "transactional"
  | promotional => "promotional"
  | acknowledgement => "acknowledgement"
  | authentication => "authentication"
  | serviceRequest => "serviceRequest"

end TrafficType

namespace MessageForm

def all : List MessageForm := [text, richCard, carousel, rbmFile, file]

def word : MessageForm → String
  | text => "text"
  | richCard => "richCard"
  | carousel => "carousel"
  | rbmFile => "rbmFile"
  | file => "file"

end MessageForm

namespace SuggestionForm

def all : List SuggestionForm := [reply, dial, openUrl, shareLocation, viewLocation, saveEvent]

def word : SuggestionForm → String
  | reply => "reply"
  | dial => "dial"
  | openUrl => "openUrl"
  | shareLocation => "shareLocation"
  | viewLocation => "viewLocation"
  | saveEvent => "saveEvent"

end SuggestionForm

namespace SectionForm

def all : List SectionForm := [agent, agentConfig, agentDefaults, flow, messages]

def word : SectionForm → String
  | agent => "agent"
  | agentConfig => "agentConfig"
  | agentDefaults => "agentDefaults"
  | flow => "flow"
  | messages => "messages"

end SectionForm

namespace Keyword

def all : List Keyword :=
  [importWord, asWord, fromWord] ++ SectionForm.all.map opening ++
  [message, withWord, whenWord, listWord, ofWord] ++ MessageForm.all.map form ++
  SuggestionForm.all.map suggestion ++ TrafficType.all.map traffic

def word : Keyword → String
  | importWord => "import"
  | asWord => "as"
  | fromWord => "from"
  | opening s => s.word
  | message => "message"
  | withWord => "with"
  | whenWord => "when"
  | listWord => "list"
  | ofWord => "of"
  | form f => f.word
  | suggestion s => s.word
  | traffic t => t.word

def ofWord? (word : String) : Option Keyword := all.find? (·.word == word)

theorem mem_all (k : Keyword) : k ∈ all := by
  cases k with
  | opening s => cases s <;> decide
  | form f => cases f <;> decide
  | suggestion s => cases s <;> decide
  | traffic t => cases t <;> decide
  | _ => decide

theorem word_of_ofWord? {w : String} {k : Keyword} (h : ofWord? w = some k) : k.word = w := by
  have := List.find?_some h
  simpa using this

end Keyword

namespace LiteralWord

def words : LiteralWord → List String
  | boolean true => ["True", "Yes", "On", "Enabled", "Active", "true"]
  | boolean false => ["False", "No", "Off", "Disabled", "Inactive", "false"]
  | null => ["Null", "None", "Void", "null"]

def all : List LiteralWord := [boolean true, boolean false, null]

def ofWord? (word : String) : Option LiteralWord := all.find? (·.words.contains word)

theorem mem_words_of_ofWord? {w : String} {l : LiteralWord} (h : ofWord? w = some l) :
    w ∈ l.words := by
  have := List.find?_some h
  simpa using this

end LiteralWord

end AgentScript
