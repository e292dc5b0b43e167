import AgentScript.Proofs.Serial.Messages
import AgentScript.Proofs.Serial.Values
import AgentScript.Serial.Agent
import AgentScript.Serial.Flow

/-!
# Files decoded from their encoding

Every tree whose positions fit and whose numbers are finite is what its encoding decodes to, one
made by hand as well as one read from a text.
-/
namespace AgentScript

open Json

def WithClause.numbers (w : WithClause) : List Float := w.parameters.flatMap Keyed.numbers

def WhenClause.numbers (w : WhenClause) : List Float :=
  w.condition.numbers ++ w.withClause.toList.flatMap WithClause.numbers

def FlowRule.numbers (r : FlowRule) : List Float :=
  r.withClause.toList.flatMap WithClause.numbers ++ r.whenClauses.flatMap WhenClause.numbers

def Flow.numbers (f : Flow) : List Float := f.rules.flatMap FlowRule.numbers

@[simp]
theorem OperandType.ofJson?_toJson (t : OperandType) : ofJson? t.toJson = some t := by
  cases t <;> rfl

theorem Operand.ofJson?_toJson {o : Operand} (h : o.node.Fits) : ofJson? o.toJson = some o := by
  have type : required OperandType.ofJson? "operandType" o.toJson = some o.type :=
    required_of_field? rfl o.type.ofJson?_toJson
  have value : required str? "value" o.toJson = some o.value := required_of_field? rfl rfl
  have location : location? o.toJson = some o.location :=
    location?_of_field? (by simp [toJson, locationField]) (Node.fits_mk.mp h).1
  simp only [ofJson?, Option.bind_eq_bind, Option.bind_eq_some_iff]
  exact ⟨_, rfl, _, type, _, value, _, location, rfl⟩

theorem WithClause.ofJson?_toJson {w : WithClause} (h : w.node.Fits)
    (finite : AllFinite w.numbers) : ofJson? w.toJson = some w := by
  obtain ⟨here, below⟩ := Node.fits_mk.mp h
  simp only [List.mem_singleton, forall_eq, List.forall_mem_map] at below
  rw [numbers, AllFinite, List.forall_mem_flatMap] at finite
  have parameters : required (listOf (Attribute.ofJson? .outside)) "parameters" w.toJson =
      some w.parameters :=
    required_listOf rfl fun e mem => Attribute.ofJson?_toJson .outside (below e mem) (finite e mem)
  have location : location? w.toJson = some w.location :=
    location?_of_field? (by simp [toJson, locationField]) here
  simp only [ofJson?, Option.bind_eq_bind, Option.bind_eq_some_iff]
  exact ⟨_, rfl, _, parameters, _, location, rfl⟩

theorem WhenClause.ofJson?_toJson {w : WhenClause} (h : w.node.Fits)
    (finite : AllFinite w.numbers) : ofJson? w.toJson = some w := by
  obtain ⟨here, below⟩ := Node.fits_mk.mp h
  simp only [List.forall_mem_cons, List.forall_mem_map, Option.mem_toList] at below
  obtain ⟨⟨fitCondition, -⟩, fitOperands, fitClause, -⟩ := below
  simp only [AllFinite, numbers, List.forall_mem_append, List.forall_mem_flatMap,
    Option.mem_toList] at finite
  have condition : required (Value.ofJson? .outside) "condition" w.toJson = some w.condition :=
    required_of_field? rfl (Value.ofJson?_toJson .outside fitCondition finite.1)
  have operands : required (listOf Operand.ofJson?) "operands" w.toJson = some w.operands :=
    required_listOf rfl fun o mem => Operand.ofJson?_toJson (fitOperands o mem)
  have withClause : optional WithClause.ofJson? "withClause" w.toJson = some w.withClause :=
    optional_of_field? (by simp [toJson, locationField])
      (fun c mem => WithClause.ofJson?_toJson (fitClause c mem) (finite.2 c mem)) rfl
  have location : location? w.toJson = some w.location :=
    location?_of_field? (by simp [toJson, locationField]) here
  simp only [ofJson?, Option.bind_eq_bind, Option.bind_eq_some_iff]
  exact ⟨_, rfl, _, condition, _, operands, _, withClause, _, location, rfl⟩

theorem FlowRule.ofJson?_toJson {r : FlowRule} (h : r.node.Fits)
    (finite : AllFinite r.numbers) : ofJson? r.toJson = some r := by
  obtain ⟨here, below⟩ := Node.fits_mk.mp h
  simp only [List.forall_mem_cons, List.forall_mem_map, Option.mem_toList] at below
  obtain ⟨fitOperands, fitClause, fitWhens, -⟩ := below
  simp only [AllFinite, numbers, List.forall_mem_append, List.forall_mem_flatMap,
    Option.mem_toList] at finite
  have operands : required (listOf Operand.ofJson?) "operands" r.toJson = some r.operands :=
    required_listOf rfl fun o mem => Operand.ofJson?_toJson (fitOperands o mem)
  have withClause : optional WithClause.ofJson? "withClause" r.toJson = some r.withClause :=
    optional_of_field? (by simp [toJson, locationField])
      (fun c mem => WithClause.ofJson?_toJson (fitClause c mem) (finite.1 c mem)) rfl
  have whenClauses : defaulted [] (listOf WhenClause.ofJson?) "whenClauses" r.toJson =
      some r.whenClauses :=
    defaulted_of_nonEmpty (by simp [toJson, locationField])
      fun w mem => WhenClause.ofJson?_toJson (fitWhens w mem) (finite.2 w mem)
  have location : location? r.toJson = some r.location :=
    location?_of_field? (by simp [toJson, locationField]) here
  simp only [ofJson?, Option.bind_eq_bind, Option.bind_eq_some_iff]
  exact ⟨_, rfl, _, operands, _, withClause, _, whenClauses, _, location, rfl⟩

theorem Flow.ofJson?_toJson {f : Flow} (h : f.node.Fits)
    (finite : AllFinite f.numbers) : ofJson? f.toJson = some f := by
  obtain ⟨here, below⟩ := Node.fits_mk.mp h
  simp only [List.mem_singleton, forall_eq, List.forall_mem_map] at below
  rw [numbers, AllFinite, List.forall_mem_flatMap] at finite
  have name : required str? "name" f.toJson = some f.name := required_of_field? rfl rfl
  have rules : required (listOf FlowRule.ofJson?) "rules" f.toJson = some f.rules :=
    required_listOf rfl fun r mem => FlowRule.ofJson?_toJson (below r mem) (finite r mem)
  have location : location? f.toJson = some f.location :=
    location?_of_field? (by simp [toJson, locationField]) here
  simp only [ofJson?, Option.bind_eq_bind, Option.bind_eq_some_iff]
  exact ⟨_, rfl, _, name, _, rules, _, location, rfl⟩

def MappedRow.numbers (r : MappedRow) : List Float := r.values.flatMap Value.numbers

def MappedType.numbers (m : MappedType) : List Float := m.rows.flatMap MappedRow.numbers

def SettingsSection.numbers (s : SettingsSection) : List Float :=
  s.attributes.flatMap Keyed.numbers ++ s.mappedTypes.flatMap MappedType.numbers

def Agent.numbers (a : Agent) : List Float :=
  a.config.toList.flatMap SettingsSection.numbers ++
    (a.defaults.toList.flatMap SettingsSection.numbers ++
      (a.flows.flatMap Flow.numbers ++ a.messages.toList.flatMap MessageSection.numbers))

def SourceFile.numbers (f : SourceFile) : List Float := f.agent.toList.flatMap Agent.numbers

theorem MappedRow.ofJson?_toJson {r : MappedRow} (h : r.node.Fits)
    (finite : AllFinite r.numbers) : ofJson? r.toJson = some r := by
  obtain ⟨here, below⟩ := Node.fits_mk.mp h
  simp only [List.mem_singleton, forall_eq, List.forall_mem_map] at below
  rw [numbers, AllFinite, List.forall_mem_flatMap] at finite
  have values : required (listOf (Value.ofJson? .outside)) "values" r.toJson = some r.values :=
    required_listOf rfl fun v mem => v.ofJson?_toJson .outside (below v mem) (finite v mem)
  have location : location? r.toJson = some r.location :=
    location?_of_field? (by simp [toJson, locationField]) here
  simp only [ofJson?, Option.bind_eq_bind, Option.bind_eq_some_iff]
  exact ⟨_, rfl, _, values, _, location, rfl⟩

theorem MappedType.ofJson?_toJson {m : MappedType} (h : m.node.Fits)
    (finite : AllFinite m.numbers) : ofJson? m.toJson = some m := by
  obtain ⟨here, below⟩ := Node.fits_mk.mp h
  simp only [List.mem_singleton, forall_eq, List.forall_mem_map] at below
  rw [numbers, AllFinite, List.forall_mem_flatMap] at finite
  have name : required str? "name" m.toJson = some m.name := required_of_field? rfl rfl
  have schema : required strings? "schema" m.toJson = some m.schema :=
    required_of_field? rfl (strings?_map m.schema)
  have rows : required (listOf MappedRow.ofJson?) "items" m.toJson = some m.rows :=
    required_listOf rfl fun r mem => r.ofJson?_toJson (below r mem) (finite r mem)
  have location : location? m.toJson = some m.location :=
    location?_of_field? (by simp [toJson, locationField]) here
  simp only [ofJson?, Option.bind_eq_bind, Option.bind_eq_some_iff]
  exact ⟨_, rfl, _, name, _, schema, _, rows, _, location, rfl⟩

theorem SettingsSection.ofJson?_toJson {s : SettingsSection} (h : s.node.Fits)
    (finite : AllFinite s.numbers) : ofJson? s.toJson = some s := by
  obtain ⟨here, below⟩ := Node.fits_mk.mp h
  simp only [List.forall_mem_cons, List.forall_mem_map] at below
  obtain ⟨fitAttributes, fitTypes, -⟩ := below
  simp only [AllFinite, numbers, List.forall_mem_append, List.forall_mem_flatMap] at finite
  have name : optional str? "name" s.toJson = some s.name :=
    optional_str?_of_field? (by simp [toJson, locationField])
  have attributes : required (listOf (Attribute.ofJson? .outside)) "attributes" s.toJson =
      some s.attributes :=
    required_listOf (by simp [toJson, locationField])
      fun e mem => Attribute.ofJson?_toJson .outside (fitAttributes e mem) (finite.1 e mem)
  have mappedTypes : defaulted [] (listOf MappedType.ofJson?) "mappedTypes" s.toJson =
      some s.mappedTypes :=
    defaulted_of_nonEmpty (by simp [toJson, locationField])
      fun m mem => m.ofJson?_toJson (fitTypes m mem) (finite.2 m mem)
  have location : location? s.toJson = some s.location :=
    location?_of_field? (by simp [toJson, locationField]) here
  simp only [ofJson?, Option.bind_eq_bind, Option.bind_eq_some_iff]
  exact ⟨_, rfl, _, name, _, attributes, _, mappedTypes, _, location, rfl⟩

theorem Agent.ofJson?_toJson {a : Agent} (h : a.node.Fits)
    (finite : AllFinite a.numbers) : ofJson? a.toJson = some a := by
  obtain ⟨here, below⟩ := Node.fits_mk.mp h
  simp only [List.forall_mem_cons, List.forall_mem_map, Option.mem_toList] at below
  obtain ⟨fitConfig, fitDefaults, fitFlows, fitMessages, -⟩ := below
  simp only [AllFinite, numbers, List.forall_mem_append, List.forall_mem_flatMap,
    Option.mem_toList] at finite
  obtain ⟨finConfig, finDefaults, finFlows, finMessages⟩ := finite
  have name : required str? "name" a.toJson = some a.name := required_of_field? rfl rfl
  have displayName : optional str? "displayName" a.toJson = some a.displayName :=
    optional_str?_of_nullable (by simp [toJson, nullable, locationField])
  have brandName : optional str? "brandName" a.toJson = some a.brandName :=
    optional_str?_of_field? (by simp [toJson, locationField])
  have config : optional SettingsSection.ofJson? "config" a.toJson = some a.config :=
    optional_of_field? (by simp [toJson, locationField])
      (fun s mem => s.ofJson?_toJson (fitConfig s mem) (finConfig s mem)) rfl
  have defaults : optional SettingsSection.ofJson? "defaults" a.toJson = some a.defaults :=
    optional_of_field? (by simp [toJson, locationField])
      (fun s mem => s.ofJson?_toJson (fitDefaults s mem) (finDefaults s mem)) rfl
  have flows : required (listOf Flow.ofJson?) "flows" a.toJson = some a.flows :=
    required_listOf (by simp [toJson, locationField])
      fun f mem => f.ofJson?_toJson (fitFlows f mem) (finFlows f mem)
  have messages : optional MessageSection.ofJson? "messages" a.toJson = some a.messages :=
    optional_of_nullable (by simp [toJson, nullable, locationField])
      (fun s mem => s.ofJson?_toJson (fitMessages s mem) (finMessages s mem)) rfl
  have location : location? a.toJson = some a.location :=
    location?_of_field? (by simp [toJson, locationField]) here
  simp only [ofJson?, Option.bind_eq_bind, Option.bind_eq_some_iff]
  exact ⟨_, rfl, _, name, _, displayName, _, brandName, _, config, _, defaults, _, flows, _,
    messages, _, location, rfl⟩

theorem Import.ofJson?_toJson {i : Import} (h : i.node.Fits) : ofJson? i.toJson = some i := by
  have path : required strings? "importPath" i.toJson = some i.path :=
    required_of_field? rfl (strings?_map i.path)
  have localName : optional str? "alias" i.toJson = some i.localName :=
    optional_str?_of_field? (by simp [toJson, locationField])
  have source : optional str? "source" i.toJson = some i.source :=
    optional_str?_of_field? (by simp [toJson, locationField])
  have location : location? i.toJson = some i.location :=
    location?_of_field? (by simp [toJson, locationField]) (Node.fits_mk.mp h).1
  simp only [ofJson?, Option.bind_eq_bind, Option.bind_eq_some_iff]
  exact ⟨_, rfl, _, path, _, localName, _, source, _, location, rfl⟩

theorem SourceFile.ofJson?_toJson {f : SourceFile} (h : f.node.Fits)
    (finite : AllFinite f.numbers) : ofJson? f.toJson = some f := by
  obtain ⟨here, below⟩ := Node.fits_mk.mp h
  simp only [List.forall_mem_cons, List.forall_mem_map, Option.mem_toList] at below
  obtain ⟨fitImports, fitAgent, -⟩ := below
  simp only [AllFinite, numbers, List.forall_mem_flatMap, Option.mem_toList] at finite
  have imports : required (listOf Import.ofJson?) "imports" f.toJson = some f.imports :=
    required_listOf rfl fun i mem => i.ofJson?_toJson (fitImports i mem)
  have agent : optional Agent.ofJson? "agentSection" f.toJson = some f.agent :=
    optional_of_nullable (by simp [toJson, nullable, locationField])
      (fun a mem => a.ofJson?_toJson (fitAgent a mem) (finite a mem)) rfl
  have location : location? f.toJson = some f.location :=
    location?_of_field? (by simp [toJson, locationField]) here
  simp only [ofJson?, Option.bind_eq_bind, Option.bind_eq_some_iff]
  exact ⟨_, rfl, _, imports, _, agent, _, location, rfl⟩

end AgentScript
