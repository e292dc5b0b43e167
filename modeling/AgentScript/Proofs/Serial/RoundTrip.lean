import AgentScript.Proofs.Serial.Files
import AgentScript.Proofs.Serial.ReadableValues
import AgentScript.Proofs.Serial.Texts

/-!
# Storing a file

A file is stored as the text of its encoding. Reading the text and decoding what was read
gives the same file again, whatever its optional parts are and however deep its values go.
-/
namespace AgentScript

open Json

variable {read : String → Option Json}

theorem OperandType.readable_toJson (t : OperandType) : t.toJson.Readable read := by
  cases t <;> exact .str _

theorem Operand.readable_toJson {o : Operand} (h : o.node.Fits) : o.toJson.Readable read := by
  refine readable_record (by simp [locationField]) ?_
  simp only [List.forall_mem_cons]
  exact ⟨readable_some o.type.readable_toJson, readable_some (.str _),
    readable_locationField (Node.fits_mk.mp h).1, by simp⟩

theorem WithClause.readable_toJson {w : WithClause} (h : w.node.Fits)
    (survive : ∀ x ∈ w.numbers, Survives read x) : w.toJson.Readable read := by
  obtain ⟨here, below⟩ := Node.fits_mk.mp h
  simp only [List.mem_singleton, forall_eq, List.forall_mem_map] at below
  simp only [numbers, List.forall_mem_flatMap] at survive
  refine readable_record (by simp [locationField]) ?_
  simp only [List.forall_mem_cons]
  exact ⟨readable_list fun e mem => Attribute.readable_toJson (below e mem) (survive e mem),
    readable_locationField here, by simp⟩

theorem WhenClause.readable_toJson {w : WhenClause} (h : w.node.Fits)
    (survive : ∀ x ∈ w.numbers, Survives read x) : w.toJson.Readable read := by
  obtain ⟨here, below⟩ := Node.fits_mk.mp h
  simp only [List.forall_mem_cons, List.forall_mem_map, Option.mem_toList] at below
  obtain ⟨⟨condition, -⟩, operands, withClause, -⟩ := below
  simp only [numbers, List.forall_mem_append, List.forall_mem_flatMap, Option.mem_toList] at survive
  refine readable_record (by simp [locationField]) ?_
  simp only [List.forall_mem_cons]
  exact ⟨readable_some (Value.readable_toJson condition survive.1),
    readable_list fun o mem => Operand.readable_toJson (operands o mem),
    readable_map fun c mem => WithClause.readable_toJson (withClause c mem) (survive.2 c mem),
    readable_locationField here, by simp⟩

theorem FlowRule.readable_toJson {r : FlowRule} (h : r.node.Fits)
    (survive : ∀ x ∈ r.numbers, Survives read x) : r.toJson.Readable read := by
  obtain ⟨here, below⟩ := Node.fits_mk.mp h
  simp only [List.forall_mem_cons, List.forall_mem_map, Option.mem_toList] at below
  obtain ⟨operands, withClause, whenClauses, -⟩ := below
  simp only [numbers, List.forall_mem_append, List.forall_mem_flatMap, Option.mem_toList] at survive
  refine readable_record (by simp [locationField]) ?_
  simp only [List.forall_mem_cons]
  exact ⟨readable_list fun o mem => Operand.readable_toJson (operands o mem),
    readable_map fun c mem => WithClause.readable_toJson (withClause c mem) (survive.1 c mem),
    readable_nonEmpty fun w mem => WhenClause.readable_toJson (whenClauses w mem) (survive.2 w mem),
    readable_locationField here, by simp⟩

theorem Flow.readable_toJson {f : Flow} (h : f.node.Fits)
    (survive : ∀ x ∈ f.numbers, Survives read x) :
    f.toJson.Readable read := by
  obtain ⟨here, below⟩ := Node.fits_mk.mp h
  simp only [List.mem_singleton, forall_eq, List.forall_mem_map] at below
  simp only [numbers, List.forall_mem_flatMap] at survive
  refine readable_record (by simp [locationField]) ?_
  simp only [List.forall_mem_cons]
  exact ⟨readable_some (.str _),
    readable_list fun r mem => FlowRule.readable_toJson (below r mem) (survive r mem),
    readable_locationField here, by simp⟩

theorem TrafficType.readable_toJson (t : TrafficType) : t.toJson.Readable read := .str _

theorem UrlApplication.readable_toJson (a : UrlApplication) : a.toJson.Readable read := by
  cases a <;> exact .str _

theorem WebviewMode.readable_toJson (m : WebviewMode) : m.toJson.Readable read := by
  cases m <;> exact .str _

theorem CardOrientation.readable_toJson (o : CardOrientation) : o.toJson.Readable read := by
  cases o <;> exact .str _

theorem ImageAlignment.readable_toJson (a : ImageAlignment) : a.toJson.Readable read := by
  cases a <;> exact .str _

theorem MediaHeight.readable_toJson (m : MediaHeight) : m.toJson.Readable read := by
  cases m <;> exact .str _

theorem CardWidth.readable_toJson (w : CardWidth) : w.toJson.Readable read := by
  cases w <;> exact .str _

theorem Suggestion.readable_toJson {s : Suggestion} (h : s.node.Fits) : s.toJson.Readable read := by
  obtain ⟨here, below⟩ := Node.fits_mk.mp h
  obtain ⟨text, action, location⟩ := s
  cases action with
  | reply postback =>
    refine readable_tagged (by simp [locationField]) ?_
    simp only [List.forall_mem_cons]
    exact ⟨readable_some (.str _), readable_text _, readable_locationField here, by simp⟩
  | dial phoneNumber =>
    refine readable_tagged (by simp [locationField]) ?_
    simp only [List.forall_mem_cons]
    exact ⟨readable_some (.str _), readable_some (.str _), readable_locationField here, by simp⟩
  | openUrl url application mode =>
    refine readable_tagged (by simp [locationField]) ?_
    simp only [List.forall_mem_cons]
    exact ⟨readable_some (.str _), readable_some (.str _),
      readable_map fun a _ => a.readable_toJson, readable_map fun m _ => m.readable_toJson,
      readable_locationField here, by simp⟩
  | shareLocation =>
    refine readable_tagged (by simp [locationField]) ?_
    simp only [List.forall_mem_cons]
    exact ⟨readable_some (.str _), readable_locationField here, by simp⟩
  | viewLocation query =>
    refine readable_tagged (by simp [locationField]) ?_
    simp only [List.forall_mem_cons]
    exact ⟨readable_some (.str _), readable_text _, readable_locationField here, by simp⟩
  | saveEvent title startTime endTime description =>
    simp only [SuggestionAction.fields, List.forall_mem_cons] at below
    obtain ⟨⟨fitStart, -⟩, ⟨fitEnd, -⟩, -⟩ := below
    refine readable_tagged (by simp [locationField]) ?_
    simp only [List.forall_mem_cons]
    exact ⟨readable_some (.str _), readable_some (.str _),
      readable_some (TypeTag.readable_toJson fitStart),
      readable_some (TypeTag.readable_toJson fitEnd), readable_text _,
      readable_locationField here, by simp⟩

theorem MessageHeader.map_fst_wrap (h : MessageHeader) (content : List (String × Option Json)) :
    (h.wrap content).map (·.1) =
      "name" :: "trafficType" :: (content.map (·.1) ++ ["suggestions", "location"]) := by
  simp [wrap, leadingFields, trailingFields, locationField]

theorem MessageHeader.readable_wrap {h : MessageHeader} {content : List (String × Option Json)}
    (here : ∀ k ∈ h.location, k.Fits) (below : ∀ s ∈ h.suggestions, s.node.Fits)
    (inner : ∀ f ∈ content, ∀ v ∈ f.2, v.Readable read) :
    ∀ f ∈ h.wrap content, ∀ v ∈ f.2, v.Readable read := by
  simp only [wrap, leadingFields, trailingFields, List.forall_mem_append, List.forall_mem_cons]
  exact ⟨⟨⟨readable_text _, readable_map fun t _ => t.readable_toJson, by simp⟩, inner⟩,
    readable_list fun s mem => Suggestion.readable_toJson (below s mem),
    readable_locationField here, by simp⟩

theorem RichCard.readable_fields {c : RichCard} (h : c.node.Fits) :
    ∀ f ∈ c.fields, ∀ v ∈ f.2, v.Readable read := by
  obtain ⟨here, below⟩ := Node.fits_mk.mp h
  simp only [List.mem_singleton, forall_eq, List.forall_mem_map] at below
  refine MessageHeader.readable_wrap here below ?_
  simp only [List.forall_mem_cons]
  exact ⟨readable_some (.str _), readable_text _, readable_map fun o _ => o.readable_toJson,
    readable_map fun a _ => a.readable_toJson, readable_map fun m _ => m.readable_toJson,
    readable_text _, by simp⟩

theorem RichCard.readable_toJson {c : RichCard} (h : c.node.Fits) : c.toJson.Readable read :=
  readable_record (by simp [fields, MessageHeader.map_fst_wrap]) (RichCard.readable_fields h)

theorem MessageDefinition.readable_fields {d : MessageDefinition} (here : ∀ k ∈ d.location, k.Fits)
    (attributes : ∀ e ∈ d.attributes, e.node.Fits) (suggestions : ∀ s ∈ d.suggestions, s.node.Fits)
    (survive : ∀ e ∈ d.attributes, ∀ x ∈ e.numbers, Survives read x) :
    ∀ f ∈ d.fields, ∀ v ∈ f.2, v.Readable read := by
  simp only [fields, List.forall_mem_cons]
  exact ⟨readable_some (.str _), readable_map fun t _ => t.readable_toJson,
    readable_list fun e mem => Attribute.readable_toJson (attributes e mem) (survive e mem),
    readable_list fun s mem => Suggestion.readable_toJson (suggestions s mem),
    readable_locationField here, by simp⟩

theorem Message.readable_toJson {m : Message} (h : m.node.Fits)
    (survive : ∀ x ∈ m.numbers, Survives read x) : m.toJson.Readable read := by
  cases m with
  | definition d =>
    obtain ⟨here, below⟩ := Node.fits_mk.mp h
    simp only [List.forall_mem_cons, List.forall_mem_map] at below
    obtain ⟨attributes, suggestions, -⟩ := below
    simp only [numbers, List.forall_mem_flatMap] at survive
    exact readable_tagged (by simp [MessageDefinition.fields, locationField])
      (MessageDefinition.readable_fields here attributes suggestions survive)
  | text header body =>
    obtain ⟨here, below⟩ := Node.fits_mk.mp h
    simp only [List.mem_singleton, forall_eq, List.forall_mem_map] at below
    refine readable_tagged (by simp [MessageHeader.map_fst_wrap])
      (MessageHeader.readable_wrap here below ?_)
    simp only [List.forall_mem_cons]
    exact ⟨readable_some (.str _), by simp⟩
  | richCard c =>
    exact readable_tagged (by simp [RichCard.fields, MessageHeader.map_fst_wrap])
      (RichCard.readable_fields h)
  | carousel header width cards =>
    obtain ⟨here, below⟩ := Node.fits_mk.mp h
    simp only [List.forall_mem_cons, List.forall_mem_map] at below
    obtain ⟨fitCards, suggestions, -⟩ := below
    refine readable_tagged (by simp [MessageHeader.map_fst_wrap])
      (MessageHeader.readable_wrap here suggestions ?_)
    simp only [List.forall_mem_cons]
    exact ⟨readable_map fun w _ => w.readable_toJson,
      readable_list fun c mem => RichCard.readable_toJson (fitCards c mem), by simp⟩
  | rbmFile header fileUrl thumbnailUrl =>
    obtain ⟨here, below⟩ := Node.fits_mk.mp h
    simp only [List.mem_singleton, forall_eq, List.forall_mem_map] at below
    refine readable_tagged (by simp [MessageHeader.map_fst_wrap])
      (MessageHeader.readable_wrap here below ?_)
    simp only [List.forall_mem_cons]
    exact ⟨readable_some (.str _), readable_text _, by simp⟩
  | file header url =>
    obtain ⟨here, below⟩ := Node.fits_mk.mp h
    simp only [List.mem_singleton, forall_eq, List.forall_mem_map] at below
    refine readable_tagged (by simp [MessageHeader.map_fst_wrap])
      (MessageHeader.readable_wrap here below ?_)
    simp only [List.forall_mem_cons]
    exact ⟨readable_some (.str _), by simp⟩

theorem MessageSection.readable_toJson {s : MessageSection} (h : s.node.Fits)
    (survive : ∀ x ∈ s.numbers, Survives read x) : s.toJson.Readable read := by
  obtain ⟨here, below⟩ := Node.fits_mk.mp h
  simp only [List.mem_singleton, forall_eq, List.forall_mem_map] at below
  simp only [numbers, List.forall_mem_flatMap] at survive
  refine readable_record (by simp [locationField]) ?_
  simp only [List.forall_mem_cons]
  exact ⟨readable_text _,
    readable_list fun m mem => Message.readable_toJson (below m mem) (survive m mem),
    readable_locationField here, by simp⟩

theorem MappedRow.readable_toJson {r : MappedRow} (h : r.node.Fits)
    (survive : ∀ x ∈ r.numbers, Survives read x) : r.toJson.Readable read := by
  obtain ⟨here, below⟩ := Node.fits_mk.mp h
  simp only [List.mem_singleton, forall_eq, List.forall_mem_map] at below
  simp only [numbers, List.forall_mem_flatMap] at survive
  refine readable_record (by simp [locationField]) ?_
  simp only [List.forall_mem_cons]
  exact ⟨readable_list fun v mem => Value.readable_toJson (below v mem) (survive v mem),
    readable_locationField here, by simp⟩

theorem MappedType.readable_toJson {m : MappedType} (h : m.node.Fits)
    (survive : ∀ x ∈ m.numbers, Survives read x) : m.toJson.Readable read := by
  obtain ⟨here, below⟩ := Node.fits_mk.mp h
  simp only [List.mem_singleton, forall_eq, List.forall_mem_map] at below
  simp only [numbers, List.forall_mem_flatMap] at survive
  refine readable_record (by simp [locationField]) ?_
  simp only [List.forall_mem_cons]
  exact ⟨readable_some (.str _), readable_list fun s _ => .str s,
    readable_list fun r mem => MappedRow.readable_toJson (below r mem) (survive r mem),
    readable_locationField here, by simp⟩

theorem SettingsSection.readable_toJson {s : SettingsSection} (h : s.node.Fits)
    (survive : ∀ x ∈ s.numbers, Survives read x) : s.toJson.Readable read := by
  obtain ⟨here, below⟩ := Node.fits_mk.mp h
  simp only [List.forall_mem_cons, List.forall_mem_map] at below
  obtain ⟨attributes, mappedTypes, -⟩ := below
  simp only [numbers, List.forall_mem_append, List.forall_mem_flatMap] at survive
  refine readable_record (by simp [locationField]) ?_
  simp only [List.forall_mem_cons]
  exact ⟨readable_text _,
    readable_list fun e mem => Attribute.readable_toJson (attributes e mem) (survive.1 e mem),
    readable_nonEmpty fun m mem => MappedType.readable_toJson (mappedTypes m mem) (survive.2 m mem),
    readable_locationField here, by simp⟩

theorem Agent.readable_toJson {a : Agent} (h : a.node.Fits)
    (survive : ∀ x ∈ a.numbers, Survives read x) : a.toJson.Readable read := by
  obtain ⟨here, below⟩ := Node.fits_mk.mp h
  simp only [List.forall_mem_cons, List.forall_mem_map, Option.mem_toList] at below
  obtain ⟨fitConfig, fitDefaults, fitFlows, fitMessages, -⟩ := below
  simp only [numbers, List.forall_mem_append, List.forall_mem_flatMap, Option.mem_toList] at survive
  obtain ⟨config, defaults, flows, messages⟩ := survive
  refine readable_record (by simp [locationField]) ?_
  simp only [List.forall_mem_cons]
  exact ⟨readable_some (.str _), readable_nullable fun s _ => .str s, readable_text _,
    readable_map fun s mem => SettingsSection.readable_toJson (fitConfig s mem) (config s mem),
    readable_map fun s mem => SettingsSection.readable_toJson (fitDefaults s mem) (defaults s mem),
    readable_list fun f mem => Flow.readable_toJson (fitFlows f mem) (flows f mem),
    readable_nullable fun s mem =>
      MessageSection.readable_toJson (fitMessages s mem) (messages s mem),
    readable_locationField here, by simp⟩

theorem Import.readable_toJson {i : Import} (h : i.node.Fits) : i.toJson.Readable read := by
  refine readable_record (by simp [locationField]) ?_
  simp only [List.forall_mem_cons]
  exact ⟨readable_list fun s _ => .str s, readable_text _, readable_text _,
    readable_locationField (Node.fits_mk.mp h).1, by simp⟩

theorem SourceFile.readable_toJson {f : SourceFile} (h : f.node.Fits)
    (survive : ∀ x ∈ f.numbers, Survives read x) : f.toJson.Readable read := by
  obtain ⟨here, below⟩ := Node.fits_mk.mp h
  simp only [List.forall_mem_cons, List.forall_mem_map, Option.mem_toList] at below
  obtain ⟨imports, agent, -⟩ := below
  simp only [numbers, List.forall_mem_flatMap, Option.mem_toList] at survive
  refine readable_record (by simp [locationField]) ?_
  simp only [List.forall_mem_cons]
  exact ⟨readable_list fun i mem => Import.readable_toJson (imports i mem),
    readable_nullable fun a mem => Agent.readable_toJson (agent a mem) (survive a mem),
    readable_locationField here, by simp⟩

/-- What is read from the text of a file is its encoding. -/
theorem SourceFile.read_toJsonText {f : SourceFile} (restores : Restores read) (fits : f.node.Fits)
    (survive : ∀ x ∈ f.numbers, Survives read x) (shallow : f.toJson.depth < depthLimit) :
    read f.toJsonText = some f.toJson :=
  restores f.toJson (readable_toJson fits survive) shallow

/-- The encoding of a file decodes to the file, however deep its values go, if all its positions
fit and all its numbers are finite. So does what any reader gets from its text that can be relied
on for these numbers, as long as the encoding is not too deep to be read. -/
theorem SourceFile.restored (f : SourceFile) (fits : f.node.Fits)
    (finite : ∀ x ∈ f.numbers, x.isFinite = true) :
    ofJson? f.toJson = some f ∧
      ∀ read, Restores read → (∀ x ∈ f.numbers, Survives read x) → f.toJson.depth < depthLimit →
        (read f.toJsonText).bind ofJson? = some f := by
  have decoded := ofJson?_toJson fits finite
  refine ⟨decoded, fun read restores survive shallow => ?_⟩
  rw [read_toJsonText restores fits survive shallow, Option.bind_some, decoded]

/-- The last position that fits. -/
def Position.edge : Position := ⟨limit32 - 1, limit32 - 1, limit64 - 1⟩

/-- A number in a list in a dictionary, where the list stands at the last position that fits. -/
def SourceFile.withRates : SourceFile :=
  ⟨[], some ⟨"Bot", none, some "\"\n", some ⟨none,
    [⟨"rates", .dictionary
      [⟨"low", .list [.number 2.5 none] true (some (.point .edge)), none⟩] false none, none⟩],
    [], none⟩, none, [], none, none⟩, none⟩

theorem SourceFile.restored_withRates :
    withRates.node.Fits ∧ withRates.numbers = [2.5] ∧ (2.5 : Float).isFinite = true ∧
      ofJson? withRates.toJson = some withRates ∧
      Restores read? ∧ Survives read? 2.5 ∧ withRates.toJson.depth = 11 ∧
      (read? withRates.toJsonText).bind ofJson? = some withRates := by
  have fits : withRates.node.Fits := by decide +kernel
  have numbers : withRates.numbers = [2.5] := rfl
  have finite : (2.5 : Float).isFinite = true := by decide
  have survives : Survives read? 2.5 := by
    intro _
    have text : Printer.float 2.5 = "2.5" := by decide +kernel
    change read? (Printer.float 2.5) = _
    rw [text]
    rfl
  have depth : withRates.toJson.depth = 11 := by decide +kernel
  obtain ⟨decoded, reread⟩ := restored withRates fits (by simpa [numbers] using finite)
  exact ⟨fits, numbers, finite, decoded, restores_read?, survives, depth,
    reread read? restores_read? (by simpa [numbers] using survives) (by rw [depth]; decide)⟩

end AgentScript
