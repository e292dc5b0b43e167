import AgentScript.Proofs.Shapes.Answers
import AgentScript.Proofs.Shapes.Sections

/-!
# The values of trees

The values of a tree are the answers of two parsers, those of inline values and of values in blocks,
and of no others. So a property of all values in what these two answer with is one of all values of
the tree, whichever lines of the text failed.
-/
namespace AgentScript

mutual

/-- A value and all values in it. -/
def Value.all : Value → List Value
  | .list items isInline l => .list items isInline l :: Value.allOfItems items
  | .dictionary entries isInline l => .dictionary entries isInline l :: Value.allOfEntries entries
  | .string text isMultiline chomping l => [.string text isMultiline chomping l]
  | .number x l => [.number x l]
  | .boolean b l => [.boolean b l]
  | .null l => [.null l]
  | .identifier name isSpaceSeparated l => [.identifier name isSpaceSeparated l]
  | .atom name l => [.atom name l]
  | .typeTag tag => [.typeTag tag]
  | .expression language code l => [.expression language code l]
  | .codeBlock language lines l => [.codeBlock language lines l]

def Value.allOfItems : List Value → List Value
  | [] => []
  | v :: vs => v.all ++ Value.allOfItems vs

def Value.allOfEntries : List (Keyed Value) → List Value
  | [] => []
  | ⟨_, v, _⟩ :: es => v.all ++ Value.allOfEntries es

end

theorem Value.allOfItems_eq_flatMap (vs : List Value) :
    Value.allOfItems vs = vs.flatMap Value.all := by
  induction vs with
  | nil => rfl
  | cons v vs ih => rw [Value.allOfItems, ih, List.flatMap_cons]

theorem Value.allOfEntries_eq_flatMap (es : List (Keyed Value)) :
    Value.allOfEntries es = es.flatMap (·.value.all) := by
  induction es with
  | nil => rfl
  | cons e es ih =>
    cases e
    rw [Value.allOfEntries, ih, List.flatMap_cons]

/-- The values under keys and all values in them. -/
def Keyed.allValues (entries : List (Keyed Value)) : List Value := entries.flatMap (·.value.all)

def WhenClause.allValues (w : WhenClause) : List Value :=
  w.condition.all ++ w.withClause.toList.flatMap fun c => Keyed.allValues c.parameters

def FlowRule.allValues (r : FlowRule) : List Value :=
  (r.withClause.toList.flatMap fun c => Keyed.allValues c.parameters) ++
    r.whenClauses.flatMap WhenClause.allValues

def Flow.allValues (f : Flow) : List Value := f.rules.flatMap FlowRule.allValues

def Message.allValues : Message → List Value
  | .definition d => Keyed.allValues d.attributes
  | .text _ _ | .richCard _ | .carousel _ _ _ | .rbmFile _ _ _ | .file _ _ => []

def MessageSection.allValues (m : MessageSection) : List Value :=
  m.messages.flatMap Message.allValues

def MappedType.allValues (m : MappedType) : List Value :=
  m.rows.flatMap fun r => r.values.flatMap Value.all

def SettingsSection.allValues (s : SettingsSection) : List Value :=
  Keyed.allValues s.attributes ++ s.mappedTypes.flatMap MappedType.allValues

def Agent.allValues (a : Agent) : List Value :=
  a.config.toList.flatMap SettingsSection.allValues ++
    a.defaults.toList.flatMap SettingsSection.allValues ++ a.flows.flatMap Flow.allValues ++
      a.messages.toList.flatMap MessageSection.allValues

/-- All values of a file, those within other values among them. -/
def SourceFile.allValues (f : SourceFile) : List Value := f.agent.toList.flatMap Agent.allValues

/-- The value and all values in it have the property. -/
def Value.Each (V : Value → Prop) (v : Value) : Prop := ∀ w ∈ v.all, V w

namespace Value

variable {V : Value → Prop}

theorem each_list {items : List Value} {isInline : Bool} {l : Option Location}
    (self : V (.list items isInline l)) (below : ∀ v ∈ items, v.Each V) :
    (Value.list items isInline l).Each V := by
  unfold Each
  rw [all, allOfItems_eq_flatMap, List.forall_mem_cons]
  exact ⟨self, List.forall_mem_flatMap.mpr below⟩

theorem each_dictionary {entries : List (Keyed Value)} {isInline : Bool} {l : Option Location}
    (self : V (.dictionary entries isInline l)) (below : ∀ e ∈ entries, e.value.Each V) :
    (Value.dictionary entries isInline l).Each V := by
  unfold Each
  rw [all, allOfEntries_eq_flatMap, List.forall_mem_cons]
  exact ⟨self, List.forall_mem_flatMap.mpr below⟩

/-- A value without values in it. -/
theorem each_of_all_eq {v : Value} (h : v.all = [v]) (self : V v) : v.Each V := by
  unfold Each
  rw [h]
  exact List.forall_mem_singleton.mpr self

end Value

theorem forall_mem_toList {α : Type} {P : α → Prop} {o : Option α} (h : ∀ a ∈ o, P a) :
    ∀ a ∈ o.toList, P a := fun a ha => h a (Option.mem_toList.mp ha)

theorem Keyed.forall_allValues {V : Value → Prop} {entries : List (Keyed Value)}
    (h : ∀ e ∈ entries, e.Formed (Value.Each V)) : ∀ v ∈ allValues entries, V v :=
  List.forall_mem_flatMap.mpr fun e he => (h e he).value

/-- The parts of an agent whose values have the property. -/
structure AgentParts.Each (V : Value → Prop) (p : AgentParts) : Prop where
  config : ∀ s ∈ p.config, ∀ v ∈ s.allValues, V v
  defaults : ∀ s ∈ p.defaults, ∀ v ∈ s.allValues, V v
  flows : ∀ f ∈ p.flows, ∀ v ∈ f.allValues, V v
  messages : ∀ m ∈ p.messages, ∀ v ∈ m.allValues, V v

namespace Parser

variable {S C : ParserState → Prop} [Enduring S] [Unbroken C] {V : Value → Prop}

/-- A key, a colon and a value with a property. -/
theorem YieldsBetween.keyed {P : Value → Prop} {value : Parser Value} [Proceeds value]
    (h : YieldsBetween S C P value) (key : Parser String) [Proceeds key] (colon : String) :
    YieldsBetween S C (Keyed.Formed P) (keyed key colon value) :=
  .skip fun _ => .skip fun _ => .skip fun _ => h.bind fun _ hv => .skip fun _ =>
    (Yields.pure ⟨rfl, hv⟩).between

/-- A line with a key and a value with a property. -/
theorem YieldsBetween.keyedLine {P : Value → Prop} {value : Parser Value} [Proceeds value]
    (h : YieldsBetween S C P value) (key colon : String) :
    YieldsBetween S C (Keyed.Formed P) (keyedLine key colon value) :=
  (h.keyed _ _).bind fun _ he => .skip fun _ => (Yields.pure he).between

section

variable (hinline : YieldsBetween S C (Value.Each V) inlineValue)

include hinline

theorem optionalWith_each : YieldsBetween S C
    (fun w => ∀ c ∈ w, ∀ v ∈ Keyed.allValues c.parameters, V v) optionalWith := by
  refine .skip fun _ => .ite (.skip fun _ => ?_) (Yields.pure forall_mem_none).between
  refine ((hinline.keyed _ _).separated .comma).bind fun parameters hparameters => ?_
  refine .skip fun l => (Yields.pure ?_).between
  rintro c ⟨⟩
  exact Keyed.forall_allValues hparameters

theorem whenClause_each : YieldsBetween S C (fun w => ∀ v ∈ w.allValues, V v) whenClause := by
  refine .skip fun _ => hinline.bind fun condition hcondition => .skip fun operands => ?_
  refine (optionalWith_each hinline).bind fun withClause hwith => .skip fun l => ?_
  refine YieldsBetween.bind (P := fun w => ∀ v ∈ w.allValues, V v)
    (yields_ofNode (fun w hw => ?_) l).between fun w hw => .skip fun _ => (Yields.pure hw).between
  unfold WhenClause.build at hw
  split_ifs at hw
  cases hw
  exact List.forall_mem_append.mpr
    ⟨hcondition, List.forall_mem_flatMap.mpr (forall_mem_toList hwith)⟩

theorem flowRule_each : YieldsBetween S C (fun r => ∀ v ∈ r.allValues, V v) flowRule := by
  refine .skip fun _ => .skip fun operands => .skip fun _ => ?_
  refine (optionalWith_each hinline).bind fun withClause hwith => ?_
  refine (whenClause_each hinline).itemBlock.bind fun whenClauses hwhen => .skip fun l => ?_
  refine (yields_ofNode (fun r hr => ?_) _).between
  unfold FlowRule.build at hr
  split_ifs at hr
  cases hr
  exact List.forall_mem_append.mpr
    ⟨List.forall_mem_flatMap.mpr (forall_mem_toList hwith), List.forall_mem_flatMap.mpr hwhen⟩

theorem flowSection_each : YieldsBetween S C (fun f => ∀ v ∈ f.allValues, V v) flowSection :=
  .skip fun _ => .skip fun _ => .skip fun _ => (flowRule_each hinline).itemBlock.bind
    fun _ hrules => .skip fun _ => (Yields.pure (List.forall_mem_flatMap.mpr hrules)).between

theorem mappedRow_each :
    YieldsBetween S C (fun r => ∀ v ∈ r.values, v.Each V) mappedRow :=
  .skip fun _ => (hinline.separated .comma).bind fun _ hv => .skip fun _ => .skip fun _ =>
    (Yields.pure hv).between

theorem mappedType_each : YieldsBetween S C (fun m => ∀ v ∈ m.allValues, V v) mappedType := by
  refine .skip fun _ => .skip fun _ => .skip fun _ => .skip fun _ => .skip fun _ => ?_
  refine .skip fun schema => .skip fun _ => .skip fun _ => ?_
  refine (mappedRow_each hinline).itemBlock.bind fun rows hrows => .skip fun _ => ?_
  exact (Yields.pure (List.forall_mem_flatMap.mpr fun r hr =>
    List.forall_mem_flatMap.mpr (hrows r hr))).between

end

section

variable (hvalue : YieldsBetween S C (Value.Each V) value)

include hvalue

theorem attributeEntry_each :
    YieldsBetween S C (Keyed.Formed (Value.Each V)) attributeEntry :=
  hvalue.keyedLine _ _

theorem definitionLine_each : definitionLine.KeepsBetween S C
    (EachHas (Keyed.Formed (Value.Each V)) fun _ : Suggestion => True) := by
  refine .choose (LineParser.keepsBetween_whole ?_) (.choose (LineParser.keepsBetween_whole ?_)
    (LineParser.keepsBetween_whole ?_) _) _
  · rintro ⟨attributes, suggestions⟩ hparts
    exact .skip fun _ => (Yields.pure (hparts.addSecond trivial)).between
  · rintro ⟨attributes, suggestions⟩ hparts
    exact .skip fun _ => .skip fun _ => .skip fun _ =>
      (Yields.pure ⟨hparts.first, fun _ _ => trivial⟩).between
  · rintro ⟨attributes, suggestions⟩ hparts
    exact (attributeEntry_each hvalue).map fun _ ha => hparts.addFirst ha

theorem messageDefinition_each (traffic : Option TrafficType) :
    YieldsBetween S C (fun m => ∀ v ∈ m.allValues, V v) (messageDefinition traffic) := by
  refine .skip fun _ => .skip fun _ => .skip fun _ => ?_
  refine (yieldsBetween_block (definitionLine_each hvalue) eachHas_nil).bind ?_
  rintro ⟨attributes, suggestions⟩ hparts
  exact .skip fun _ => (Yields.pure (Keyed.forall_allValues hparts.first)).between

omit hvalue in
/-- The short forms have no attributes. -/
theorem yields_shortForm_allValues (traffic : Option TrafficType) (form : MessageForm) :
    Yields (fun m => m.allValues = []) (shortForm traffic form) := by
  cases form with
  | text =>
    exact .skip fun _ => .skip fun _ => .skip fun _ => .skip fun _ => .skip fun _ => .pure rfl
  | richCard => exact .skip fun _ => .pure rfl
  | carousel =>
    refine .skip fun _ => .skip fun _ => .skip fun _ => .skip fun _ => .skip fun _ => ?_
    exact .skip fun _ => .pure rfl
  | rbmFile =>
    refine .skip fun _ => .skip fun _ => .skip fun _ => .skip fun _ => .skip fun _ => ?_
    exact .skip fun _ => .pure rfl
  | file =>
    exact .skip fun _ => .skip fun _ => .skip fun _ => .skip fun _ => .skip fun _ => .pure rfl

theorem message_each : YieldsBetween S C (fun m => ∀ v ∈ m.allValues, V v) message := by
  refine .skip fun traffic => .skip fun k => ?_
  split
  · have hshort := yields_shortForm_allValues traffic
    exact Yields.between fun _ _ m heq => (hshort _ heq).symm ▸ List.forall_mem_nil _
  · exact .skip fun _ => messageDefinition_each hvalue traffic
  · exact (yields_failHere _).between
  · refine .skip fun _ => .ite (messageDefinition_each hvalue traffic) (.ite ?_ ?_)
    · exact (yields_failHere _).between
    · exact (yields_unexpected _).between

theorem messageSection_each :
    YieldsBetween S C (fun m => ∀ v ∈ m.allValues, V v) messageSection :=
  .skip fun _ => .skip fun _ => .skip fun _ => (message_each hvalue).itemBlock.bind
    fun _ hmessages => .skip fun _ => (Yields.pure (List.forall_mem_flatMap.mpr hmessages)).between

variable (hinline : YieldsBetween S C (Value.Each V) inlineValue)

include hinline

theorem settingsLine_each : settingsLine.KeepsBetween S C
    (EachHas (Keyed.Formed (Value.Each V)) fun m => ∀ v ∈ m.allValues, V v) := by
  refine .choose (LineParser.keepsBetween_whole ?_) (LineParser.keepsBetween_whole ?_) _
  · rintro ⟨attributes, mappedTypes⟩ hparts
    exact (mappedType_each hinline).map fun _ hm => hparts.addSecond hm
  · rintro ⟨attributes, mappedTypes⟩ hparts
    exact (attributeEntry_each hvalue).map fun _ ha => hparts.addFirst ha

theorem settingsSection_each :
    YieldsBetween S C (fun s => ∀ v ∈ s.allValues, V v) settingsSection := by
  refine .skip fun _ => .skip fun _ => .skip fun _ => ?_
  refine (yieldsBetween_block (settingsLine_each hvalue hinline) eachHas_nil).bind ?_
  rintro ⟨attributes, mappedTypes⟩ hparts
  exact .skip fun _ => (Yields.pure (List.forall_mem_append.mpr
    ⟨Keyed.forall_allValues hparts.first, List.forall_mem_flatMap.mpr hparts.second⟩)).between

theorem agentPart_each {p : AgentParts} (hp : p.Each V) :
    YieldsBetween S C (AgentParts.Each V) (agentPart p) := by
  have hsettings := settingsSection_each hvalue hinline
  refine .skip fun t => ?_
  split
  · exact hsettings.bind fun s hs =>
      (yields_fillOnce hp.config hs _ _).between.map fun _ h => { hp with config := h }
  · exact hsettings.bind fun s hs =>
      (yields_fillOnce hp.defaults hs _ _).between.map fun _ h => { hp with defaults := h }
  · exact (flowSection_each hinline).map fun f hf =>
      { hp with flows := forall_mem_concat hp.flows hf }
  · exact (messageSection_each hvalue).bind fun m hm =>
      (yields_fillOnce hp.messages hm _ _).between.map fun _ h => { hp with messages := h }
  · exact (yields_fail _ _).between
  · refine .skip fun _ => .ite (Yields.between ?_) (yields_unexpected _).between
    refine .skip fun t => .ite (yields_fail _ _) (.skip fun _ => .skip fun _ => .skip fun _ => ?_)
    exact .skip fun _ => .ite (.skip fun _ => .pure { hp with }) (.skip fun _ => .pure { hp with })

theorem agent_each : YieldsBetween S C (fun a => ∀ v ∈ a.allValues, V v) agent := by
  have hempty : AgentParts.empty.Each V :=
    ⟨forall_mem_none, forall_mem_none, List.forall_mem_nil _, forall_mem_none⟩
  refine .skip fun _ => .skip fun _ => .skip fun _ => ?_
  refine (yieldsBetween_block (LineParser.keepsBetween_whole fun _ =>
    agentPart_each hvalue hinline) hempty).bind fun p hp => .skip fun l => (Yields.pure ?_).between
  have hsettings {o : Option SettingsSection} (h : ∀ s ∈ o, ∀ v ∈ s.allValues, V v) :
      ∀ v ∈ o.toList.flatMap SettingsSection.allValues, V v :=
    List.forall_mem_flatMap.mpr (forall_mem_toList h)
  refine List.forall_mem_append.mpr ⟨List.forall_mem_append.mpr ⟨List.forall_mem_append.mpr
    ⟨hsettings hp.config, hsettings hp.defaults⟩, ?_⟩, ?_⟩
  · exact List.forall_mem_flatMap.mpr hp.flows
  · exact List.forall_mem_flatMap.mpr (forall_mem_toList hp.messages)

end

end Parser

/-- What holds of all values that are read between such states holds of all values of a file. -/
theorem ParsedFile.each_read {S C : ParserState → Prop} [Enduring S] [Unbroken C] {V : Value → Prop}
    (hvalue : Parser.YieldsBetween S C (Value.Each V) Parser.value)
    (hinline : Parser.YieldsBetween S C (Value.Each V) Parser.inlineValue) {s : ParserState}
    (hs : S s) (hC : C (read s).2) : ∀ tree ∈ (read s).1, ∀ v ∈ tree.allValues, V v := by
  intro tree htree
  have hagent := agent_between ((Parser.agent_each hvalue hinline).restrict fun _ h => h.1) hs hC
  exact List.forall_mem_flatMap.mpr (forall_mem_toList (hagent tree htree))

end AgentScript
