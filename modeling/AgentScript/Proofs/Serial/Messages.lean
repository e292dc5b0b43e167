import AgentScript.Proofs.Serial.Values
import AgentScript.Serial.Message

/-!
# Messages decoded from their encoding

A suggestion and a message are members of unions, so each form is told from the others by its
name. What the short forms have in common is read from the same fields in all of them.
-/
namespace AgentScript

open Json

/-- Only a message that is written out has values. -/
def Message.numbers : Message → List Float
  | .definition d => d.attributes.flatMap Keyed.numbers
  | .text _ _ | .richCard _ | .carousel _ _ _ | .rbmFile _ _ _ | .file _ _ => []

def MessageSection.numbers (s : MessageSection) : List Float := s.messages.flatMap Message.numbers

@[simp]
theorem TrafficType.ofJson?_toJson (site : Site) (t : TrafficType) :
    ofJson? site t.toJson = some t := by
  cases t <;> rfl

@[simp]
theorem UrlApplication.ofJson?_toJson (site : Site) (a : UrlApplication) :
    ofJson? site a.toJson = some a := by
  cases a <;> rfl

@[simp]
theorem WebviewMode.ofJson?_toJson (site : Site) (m : WebviewMode) :
    ofJson? site m.toJson = some m := by
  cases m <;> rfl

@[simp]
theorem CardOrientation.ofJson?_toJson (site : Site) (o : CardOrientation) :
    ofJson? site o.toJson = some o := by
  cases o <;> rfl

@[simp]
theorem ImageAlignment.ofJson?_toJson (site : Site) (a : ImageAlignment) :
    ofJson? site a.toJson = some a := by
  cases a <;> rfl

@[simp]
theorem MediaHeight.ofJson?_toJson (site : Site) (m : MediaHeight) :
    ofJson? site m.toJson = some m := by
  cases m <;> rfl

@[simp]
theorem CardWidth.ofJson?_toJson (site : Site) (w : CardWidth) :
    ofJson? site w.toJson = some w := by
  cases w <;> rfl

/-- The name a suggestion has in the union of its forms. -/
def SuggestionAction.type : SuggestionAction → String
  | .reply _ => "ReplyShortcut"
  | .dial _ => "DialShortcut"
  | .openUrl _ _ _ => "OpenUrlShortcut"
  | .shareLocation => "ShareLocationShortcut"
  | .viewLocation _ => "ViewLocationShortcut"
  | .saveEvent _ _ _ _ => "SaveEventShortcut"

theorem Suggestion.member?_toJson (site : Site) (s : Suggestion) :
    member? shapes site s.toJson = some (s.action.type, s.toJson) := by
  obtain ⟨text, action, location⟩ := s
  cases action <;> exact member?_tagged shapes site _ _

theorem SuggestionAction.ofFields?_toJson {s : Suggestion} (h : s.node.Fits) :
    ofFields? s.action.type s.toJson = some s.action := by
  have below := (Node.fits_mk.mp h).2
  obtain ⟨text, action, location⟩ := s
  cases action with
  | reply postback =>
    simp only [ofFields?, type, Option.bind_eq_bind, Option.bind_eq_some_iff]
    exact ⟨_, optional_str?_of_field? (by simp [Suggestion.toJson, locationField]), rfl⟩
  | dial phoneNumber =>
    simp only [ofFields?, type, Option.bind_eq_bind, Option.bind_eq_some_iff]
    exact ⟨_, required_of_field? (x := str phoneNumber) rfl rfl, rfl⟩
  | openUrl url application mode =>
    simp only [ofFields?, type, Option.bind_eq_bind, Option.bind_eq_some_iff]
    exact ⟨_, required_of_field? (x := str url) rfl rfl, _,
      optional_of_field? (by simp [Suggestion.toJson, locationField])
        (fun a _ => a.ofJson?_toJson .inside) rfl, _,
      optional_of_field? (by simp [Suggestion.toJson, locationField])
        (fun m _ => m.ofJson?_toJson .inside) rfl, rfl⟩
  | shareLocation => rfl
  | viewLocation query =>
    simp only [ofFields?, type, Option.bind_eq_bind, Option.bind_eq_some_iff]
    exact ⟨_, optional_str?_of_field? (by simp [Suggestion.toJson, locationField]), rfl⟩
  | saveEvent title startTime endTime description =>
    simp only [fields, List.forall_mem_cons] at below
    obtain ⟨⟨fitStart, -⟩, ⟨fitEnd, -⟩, -⟩ := below
    simp only [ofFields?, type, Option.bind_eq_bind, Option.bind_eq_some_iff]
    exact ⟨_, required_of_field? (x := str title) rfl rfl, _,
      required_of_field? (x := startTime.toJson) rfl (TypeTag.ofJson?_toJson fitStart), _,
      required_of_field? (x := endTime.toJson) rfl (TypeTag.ofJson?_toJson fitEnd), _,
      optional_str?_of_field? (by simp [Suggestion.toJson, locationField]), rfl⟩

theorem Suggestion.ofJson?_toJson (site : Site) {s : Suggestion} (h : s.node.Fits) :
    ofJson? site s.toJson = some s := by
  have text : required str? "text" s.toJson = some s.text := by
    refine required_of_field? (x := str s.text) ?_ rfl
    obtain ⟨text, action, location⟩ := s
    cases action <;> rfl
  have location : location? s.toJson = some s.location := by
    refine location?_of_field? ?_ (Node.fits_mk.mp h).1
    obtain ⟨text, action, location⟩ := s
    cases action <;> simp [toJson, locationField]
  rw [ofJson?, member?_toJson]
  simp only [Option.bind_eq_bind, Option.bind_some, Option.bind_eq_some_iff]
  exact ⟨_, text, _, SuggestionAction.ofFields?_toJson h, _, location, rfl⟩

namespace MessageHeader

/-- The names of the fields around the content of a message. -/
def keys : List String := ["name", "trafficType", "suggestions", "location"]

variable {h : MessageHeader} {content : List (String × Option Json)}

theorem field?_wrap {key : String} (differ : key ∉ keys) :
    (record (h.wrap content)).field? key = (record content).field? key := by
  simp only [keys, List.mem_cons, not_or] at differ
  simp [wrap, leadingFields, trailingFields, locationField, field?_record_append, differ]

theorem ne_type_of_mem {key : String} (mem : key ∈ keys) : key ≠ "type" := by
  rintro rfl
  simp [keys] at mem

/-- The header of a message is read from around a content without fields of these names. -/
theorem ofFields?_wrap {v : Json}
    (found : ∀ key ∈ keys, v.field? key = (record (h.wrap content)).field? key)
    (apart : ∀ key ∈ keys, key ∉ content.map (·.1)) (here : ∀ k ∈ h.location, k.Fits)
    (below : ∀ s ∈ h.suggestions, s.node.Fits) : ofFields? v = some h := by
  have around (key : String) (mem : key ∈ keys) :
      v.field? key = (record (h.leadingFields ++ h.trailingFields)).field? key := by
    simp [found key mem, wrap, field?_record_append, field?_record_absent (apart key mem)]
  simp only [leadingFields, trailingFields, locationField, keys, List.forall_mem_cons] at around
  obtain ⟨name, traffic, suggestions, location, -⟩ := around
  have name : optional str? "name" v = some h.name :=
    optional_str?_of_field? (by simp [name])
  have traffic : optional (TrafficType.ofJson? .inside) "trafficType" v = some h.traffic :=
    optional_of_field? (by simp [traffic]) (fun t _ => t.ofJson?_toJson .inside) rfl
  have suggestions : required (listOf (Suggestion.ofJson? .inside)) "suggestions" v =
      some h.suggestions :=
    required_listOf (by simp [suggestions])
      fun s mem => Suggestion.ofJson?_toJson .inside (below s mem)
  have location : location? v = some h.location :=
    location?_of_field? (by simp [location]) here
  simp only [ofFields?, Option.bind_eq_bind, Option.bind_eq_some_iff]
  exact ⟨_, name, _, traffic, _, suggestions, _, location, rfl⟩

end MessageHeader

/-- A card is read alike from a record of its own and from the member of a union. -/
theorem RichCard.ofJson?_of_field? {v : Json} {c : RichCard} (whole : shape.record? v = some v)
    (found : ∀ key ≠ "type", v.field? key = c.toJson.field? key) (h : c.node.Fits) :
    ofJson? v = some c := by
  obtain ⟨here, below⟩ := Node.fits_mk.mp h
  simp only [List.mem_singleton, forall_eq, List.forall_mem_map] at below
  have header : MessageHeader.ofFields? v = some c.header :=
    MessageHeader.ofFields?_wrap (fun key mem => found key (MessageHeader.ne_type_of_mem mem))
      (by simp [MessageHeader.keys]) here below
  have inner (key : String) (differ : key ∉ "type" :: MessageHeader.keys) :=
    (found key (List.ne_of_not_mem_cons differ)).trans
      (MessageHeader.field?_wrap (List.not_mem_of_not_mem_cons differ))
  have title : required str? "title" v = some c.title :=
    required_of_field? (x := str c.title) (by simp [inner, MessageHeader.keys]) rfl
  have description : optional str? "description" v = some c.description :=
    optional_str?_of_field? (by simp [inner, MessageHeader.keys])
  have orientation : optional (CardOrientation.ofJson? .inside) "orientation" v =
      some c.orientation :=
    optional_of_field? (by simp [inner, MessageHeader.keys])
      (fun o _ => o.ofJson?_toJson .inside) rfl
  have alignment : optional (ImageAlignment.ofJson? .inside) "alignment" v = some c.alignment :=
    optional_of_field? (by simp [inner, MessageHeader.keys])
      (fun a _ => a.ofJson?_toJson .inside) rfl
  have height : optional (MediaHeight.ofJson? .inside) "height" v = some c.height :=
    optional_of_field? (by simp [inner, MessageHeader.keys])
      (fun m _ => m.ofJson?_toJson .inside) rfl
  have imageUrl : optional str? "imageUrl" v = some c.imageUrl :=
    optional_str?_of_field? (by simp [inner, MessageHeader.keys])
  simp only [ofJson?, Option.bind_eq_bind, Option.bind_eq_some_iff]
  exact ⟨_, whole, _, header, _, title, _, description, _, orientation, _, alignment, _, height,
    _, imageUrl, rfl⟩

theorem RichCard.ofJson?_toJson {c : RichCard} (h : c.node.Fits) : ofJson? c.toJson = some c :=
  ofJson?_of_field? rfl (fun _ _ => rfl) h

theorem MessageDefinition.ofFields?_of_field? {v : Json} {d : MessageDefinition}
    (found : ∀ key ≠ "type", v.field? key = (record d.fields).field? key)
    (here : ∀ k ∈ d.location, k.Fits) (fitAttributes : ∀ e ∈ d.attributes, e.node.Fits)
    (fitSuggestions : ∀ s ∈ d.suggestions, s.node.Fits)
    (finite : ∀ e ∈ d.attributes, AllFinite e.numbers) : ofFields? v = some d := by
  have name : required str? "name" v = some d.name :=
    required_of_field? (x := str d.name) (by simp [found, fields, locationField]) rfl
  have traffic : optional (TrafficType.ofJson? .inside) "trafficType" v = some d.traffic :=
    optional_of_field? (by simp [found, fields, locationField])
      (fun t _ => t.ofJson?_toJson .inside) rfl
  have attributes : required (listOf (Attribute.ofJson? .inside)) "attributes" v =
      some d.attributes :=
    required_listOf (by simp [found, fields, locationField])
      fun e mem => Attribute.ofJson?_toJson .inside (fitAttributes e mem) (finite e mem)
  have suggestions : required (listOf (Suggestion.ofJson? .inside)) "suggestions" v =
      some d.suggestions :=
    required_listOf (by simp [found, fields, locationField])
      fun s mem => Suggestion.ofJson?_toJson .inside (fitSuggestions s mem)
  have location : location? v = some d.location :=
    location?_of_field? (by simp [found, fields, locationField]) here
  simp only [ofFields?, Option.bind_eq_bind, Option.bind_eq_some_iff]
  exact ⟨_, name, _, traffic, _, attributes, _, suggestions, _, location, rfl⟩

/-- The name a message has in the union of its forms. -/
def Message.type : Message → String
  | .definition _ => "MessageDefinition"
  | .text _ _ => "TextShortcut"
  | .richCard _ => "RichCardShortcut"
  | .carousel _ _ _ => "CarouselShortcut"
  | .rbmFile _ _ _ => "RbmFileShortcut"
  | .file _ _ => "FileShortcut"

theorem Message.member?_toJson (m : Message) :
    member? shapes .outside m.toJson = some (m.type, m.toJson) := by
  cases m <;> exact member?_tagged shapes .outside _ _

/-- The header is read alike from all short forms. -/
theorem MessageHeader.ofFields?_tagged {h : MessageHeader} {content : List (String × Option Json)}
    (type : String) (apart : ∀ key ∈ keys, key ∉ content.map (·.1))
    (here : ∀ k ∈ h.location, k.Fits) (below : ∀ s ∈ h.suggestions, s.node.Fits) :
    ofFields? (tagged type (h.wrap content)) = some h :=
  ofFields?_wrap (fun _ mem => field?_tagged (ne_type_of_mem mem) type) apart here below

theorem Message.ofJson?_toJson {m : Message} (h : m.node.Fits) (finite : AllFinite m.numbers) :
    ofJson? m.toJson = some m := by
  rw [ofJson?, member?_toJson]
  simp only [Option.bind_eq_bind, Option.bind_some]
  cases m with
  | definition d =>
    obtain ⟨here, below⟩ := Node.fits_mk.mp h
    simp only [List.forall_mem_cons, List.forall_mem_map] at below
    obtain ⟨attributes, suggestions, -⟩ := below
    rw [numbers, AllFinite, List.forall_mem_flatMap] at finite
    simp only [type, Option.bind_eq_some_iff]
    exact ⟨_, MessageDefinition.ofFields?_of_field? (fun _ differ => field?_tagged differ _) here
      attributes suggestions finite, rfl⟩
  | text header body =>
    obtain ⟨here, below⟩ := Node.fits_mk.mp h
    simp only [List.mem_singleton, forall_eq, List.forall_mem_map] at below
    simp only [type, Option.bind_eq_some_iff]
    exact ⟨_, header.ofFields?_tagged _ (by simp [MessageHeader.keys]) here below, _,
      required_of_field? (x := str body)
        (by simp [toJson, MessageHeader.field?_wrap, MessageHeader.keys]) rfl, rfl⟩
  | richCard c =>
    simp only [type, Option.bind_eq_some_iff]
    exact ⟨_, c.ofJson?_of_field? rfl (fun _ differ => field?_tagged differ _) h, rfl⟩
  | carousel header width cards =>
    obtain ⟨here, below⟩ := Node.fits_mk.mp h
    simp only [List.forall_mem_cons, List.forall_mem_map] at below
    obtain ⟨fitCards, suggestions, -⟩ := below
    simp only [type, Option.bind_eq_some_iff]
    exact ⟨_, header.ofFields?_tagged _ (by simp [MessageHeader.keys]) here suggestions, _,
      optional_of_field? (by simp [toJson, MessageHeader.field?_wrap, MessageHeader.keys])
        (fun w _ => w.ofJson?_toJson .inside) rfl, _,
      required_listOf (by simp [toJson, MessageHeader.field?_wrap, MessageHeader.keys])
        (fun c mem => c.ofJson?_toJson (fitCards c mem)), rfl⟩
  | rbmFile header fileUrl thumbnailUrl =>
    obtain ⟨here, below⟩ := Node.fits_mk.mp h
    simp only [List.mem_singleton, forall_eq, List.forall_mem_map] at below
    simp only [type, Option.bind_eq_some_iff]
    exact ⟨_, header.ofFields?_tagged _ (by simp [MessageHeader.keys]) here below, _,
      required_of_field? (x := str fileUrl)
        (by simp [toJson, MessageHeader.field?_wrap, MessageHeader.keys]) rfl, _,
      optional_str?_of_field?
        (by simp [toJson, MessageHeader.field?_wrap, MessageHeader.keys]), rfl⟩
  | file header url =>
    obtain ⟨here, below⟩ := Node.fits_mk.mp h
    simp only [List.mem_singleton, forall_eq, List.forall_mem_map] at below
    simp only [type, Option.bind_eq_some_iff]
    exact ⟨_, header.ofFields?_tagged _ (by simp [MessageHeader.keys]) here below, _,
      required_of_field? (x := str url)
        (by simp [toJson, MessageHeader.field?_wrap, MessageHeader.keys]) rfl, rfl⟩

theorem MessageSection.ofJson?_toJson {s : MessageSection} (h : s.node.Fits)
    (finite : AllFinite s.numbers) : ofJson? s.toJson = some s := by
  obtain ⟨here, below⟩ := Node.fits_mk.mp h
  simp only [List.mem_singleton, forall_eq, List.forall_mem_map] at below
  rw [numbers, AllFinite, List.forall_mem_flatMap] at finite
  have name : optional str? "name" s.toJson = some s.name :=
    optional_str?_of_field? (by simp [toJson, locationField])
  have messages : required (listOf Message.ofJson?) "messages" s.toJson = some s.messages :=
    required_listOf (by simp [toJson, locationField]) fun m mem =>
      m.ofJson?_toJson (below m mem) (finite m mem)
  have location : location? s.toJson = some s.location :=
    location?_of_field? (by simp [toJson, locationField]) here
  simp only [ofJson?, Option.bind_eq_bind, Option.bind_eq_some_iff]
  exact ⟨_, rfl, _, name, _, messages, _, location, rfl⟩

end AgentScript
