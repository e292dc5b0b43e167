import AgentScript.Proofs.Serial.Files

/-!
# Files that are not decoded

A double that is not finite is written as null, and a required number is not null. So the encoding
of a file with such a double in it decodes to nothing, wherever the double stands.
-/
namespace AgentScript

namespace Json

variable {α : Type} {decode : Json → Option α} {key : String} {v w : Json} {a : α} {P : Prop}

/-- The value is decoded only if the condition holds. -/
def Demands (v : Json) (decode : Json → Option α) (P : Prop) : Prop :=
  ∀ ⦃a : α⦄, decode v = some a → P

section

variable (found : v.field? key = some w) (demands : Demands w decode P)

include found demands

theorem Demands.of_required (read : required decode key v = some a) : P := by
  rw [required, found] at read
  exact demands read

theorem Demands.of_defaulted {value : α} (read : defaulted value decode key v = some a) : P := by
  rw [defaulted, found] at read
  exact demands read

/-- An object is not taken for an absent field. -/
theorem Demands.of_optional {o : Option α} (object : ∃ fs, w = obj fs)
    (read : optional decode key v = some o) : P := by
  obtain ⟨fs, rfl⟩ := object
  rw [optional, found] at read
  obtain ⟨a, ha, -⟩ := Option.map_eq_some_iff.mp read
  exact demands ha

end

theorem demands_listOf {β : Type} {encode : β → Json} {items : List β} {P : β → Prop}
    (each : ∀ x ∈ items, Demands (encode x) decode (P x)) :
    Demands (arr (items.map encode)) (listOf decode) (∀ x ∈ items, P x) := by
  intro l read
  change (items.map encode).mapM decode = some l at read
  induction items generalizing l with
  | nil => exact List.forall_mem_nil _
  | cons x items ih =>
    simp only [List.map_cons, List.mapM_cons, Option.bind_eq_bind, Option.bind_eq_some_iff] at read
    obtain ⟨b, hb, bs, hbs, -⟩ := read
    obtain ⟨hx, hitems⟩ := List.forall_mem_cons.mp each
    exact List.forall_mem_cons.mpr ⟨hx hb, ih hitems hbs⟩

theorem demands_ofFloat (x : Float) : Demands (ofFloat x) float? (x.isFinite = true) := by
  intro y read
  unfold ofFloat at read
  split at read
  · assumption
  · cases read

end Json

open Json

section

variable {α β : Type} {decode : Json → Option α} {encode : β → Json} {numbers : β → List Float}

theorem demands_flatMap {items : List β}
    (each : ∀ x ∈ items, Demands (encode x) decode (AllFinite (numbers x))) :
    Demands (arr (items.map encode)) (listOf decode) (AllFinite (items.flatMap numbers)) :=
  fun _ read => List.forall_mem_flatMap.mpr (demands_listOf each read)

/-- What an optional part has is demanded where it is there. -/
theorem allFinite_of_optional (encode : β → Json) {key : String} {v : Json} {o : Option β}
    {a : Option α} (found : ∀ x ∈ o, v.field? key = some (encode x))
    (object : ∀ x, ∃ fs, encode x = obj fs)
    (each : ∀ x ∈ o, Demands (encode x) decode (AllFinite (numbers x)))
    (read : optional decode key v = some a) : AllFinite (o.toList.flatMap numbers) := by
  refine List.forall_mem_flatMap.mpr fun x hx => ?_
  have hx := Option.mem_toList.mp hx
  exact Demands.of_optional (found x hx) (each x hx) (object x) read

/-- A list that is left out when it is empty. -/
theorem allFinite_of_defaulted {key : String} {v : Json} {items : List β} {value a : List α}
    (found : v.field? key = nonEmpty (items.map encode))
    (each : ∀ x ∈ items, Demands (encode x) decode (AllFinite (numbers x)))
    (read : defaulted value (listOf decode) key v = some a) :
    AllFinite (items.flatMap numbers) := by
  cases items with
  | nil => exact List.forall_mem_nil _
  | cons x items => exact Demands.of_defaulted found (demands_flatMap each) read

end

theorem Keyed.demands {decode : Json → Option Value} {e : Keyed Value} {P : Prop}
    (value : Demands e.value.toJson decode P) :
    Demands (Attribute.toJson e) (Keyed.ofJson? decode) P := by
  intro a read
  have whole (shape : Shape) : shape.record? (Attribute.toJson e) = some (Attribute.toJson e) := rfl
  simp only [Keyed.ofJson?, whole, Option.bind_eq_bind, Option.bind_some,
    Option.bind_eq_some_iff] at read
  obtain ⟨_, -, _, hvalue, -⟩ := read
  exact Demands.of_required rfl value hvalue

/-- The induction is on the bound of the depth, as far as values are decoded. -/
theorem Value.demands (depth : Nat) (site : Site) (v : Value) :
    Demands v.toJson (decode? depth site) (AllFinite v.numbers) := by
  induction depth generalizing site v with
  | zero => rintro a ⟨⟩
  | succ depth ih =>
    intro a read
    rw [decode?, member?_toJson] at read
    simp only [Option.bind_eq_bind, Option.bind_some, Option.bind_eq_some_iff] at read
    obtain ⟨location, -, read⟩ := read
    cases v with
    | number x l =>
      simp only [type, Option.bind_eq_some_iff] at read
      obtain ⟨y, hy, -⟩ := read
      exact List.forall_mem_singleton.mpr
        (Demands.of_required (by simp [toJson, locationField]) (demands_ofFloat x) hy)
    | list items isInline l =>
      simp only [type, Option.bind_eq_some_iff] at read
      obtain ⟨_, hitems, -⟩ := read
      have below : ∀ v ∈ items, AllFinite v.numbers :=
        Demands.of_required (by simp [toJson, locationField, listToJson_eq_map])
          (demands_listOf fun v _ => ih .inside v) hitems
      rw [numbers, numbersOfItems_eq_flatMap]
      exact List.forall_mem_flatMap.mpr below
    | dictionary entries isInline l =>
      simp only [type, Option.bind_eq_some_iff] at read
      obtain ⟨_, hentries, -⟩ := read
      have below : ∀ e ∈ entries, AllFinite e.numbers :=
        Demands.of_required (by simp [toJson, locationField, entriesToJson_eq_map])
          (demands_listOf fun e _ => Keyed.demands (ih .inside e.value)) hentries
      rw [numbers, numbersOfEntries_eq_flatMap]
      exact List.forall_mem_flatMap.mpr below
    | _ => exact List.forall_mem_nil _

theorem Value.demands_ofJson? (site : Site) (v : Value) :
    Demands v.toJson (ofJson? site) (AllFinite v.numbers) :=
  fun _ read => demands _ site v read

theorem Attribute.demands (site : Site) (e : Keyed Value) :
    Demands (Attribute.toJson e) (Attribute.ofJson? site) (AllFinite e.numbers) :=
  Keyed.demands (e.value.demands_ofJson? site)

theorem WithClause.demands (w : WithClause) : Demands w.toJson ofJson? (AllFinite w.numbers) := by
  intro a read
  have whole (shape : Shape) : shape.record? w.toJson = some w.toJson := rfl
  simp only [ofJson?, whole, Option.bind_eq_bind, Option.bind_some,
    Option.bind_eq_some_iff] at read
  obtain ⟨_, hparameters, -⟩ := read
  exact Demands.of_required (by simp [toJson, locationField])
    (demands_flatMap fun e _ => Attribute.demands _ e) hparameters

theorem WhenClause.demands (w : WhenClause) : Demands w.toJson ofJson? (AllFinite w.numbers) := by
  intro a read
  have whole (shape : Shape) : shape.record? w.toJson = some w.toJson := rfl
  simp only [ofJson?, whole, Option.bind_eq_bind, Option.bind_some,
    Option.bind_eq_some_iff] at read
  obtain ⟨_, hcondition, _, -, _, hwith, -⟩ := read
  refine List.forall_mem_append.mpr ⟨?_, ?_⟩
  · exact Demands.of_required (by simp [toJson, locationField])
      (w.condition.demands_ofJson? _) hcondition
  · exact allFinite_of_optional WithClause.toJson
      (by simp +contextual [toJson, locationField])
      (fun _ => ⟨_, rfl⟩) (fun c _ => c.demands) hwith

theorem FlowRule.demands (r : FlowRule) : Demands r.toJson ofJson? (AllFinite r.numbers) := by
  intro a read
  have whole (shape : Shape) : shape.record? r.toJson = some r.toJson := rfl
  simp only [ofJson?, whole, Option.bind_eq_bind, Option.bind_some,
    Option.bind_eq_some_iff] at read
  obtain ⟨_, -, _, hwith, _, hwhen, -⟩ := read
  refine List.forall_mem_append.mpr ⟨?_, ?_⟩
  · exact allFinite_of_optional WithClause.toJson
      (by simp +contextual [toJson, locationField])
      (fun _ => ⟨_, rfl⟩) (fun c _ => c.demands) hwith
  · exact allFinite_of_defaulted (by simp [toJson, locationField])
      (fun w _ => w.demands) hwhen

theorem Flow.demands (f : Flow) : Demands f.toJson ofJson? (AllFinite f.numbers) := by
  intro a read
  have whole (shape : Shape) : shape.record? f.toJson = some f.toJson := rfl
  simp only [ofJson?, whole, Option.bind_eq_bind, Option.bind_some,
    Option.bind_eq_some_iff] at read
  obtain ⟨_, -, _, hrules, -⟩ := read
  exact Demands.of_required (by simp [toJson, locationField])
    (demands_flatMap fun r _ => r.demands) hrules

/-- Only a message that is written out has numbers. -/
theorem Message.demands (m : Message) : Demands m.toJson ofJson? (AllFinite m.numbers) := by
  intro a read
  cases m with
  | definition d =>
    rw [ofJson?, member?_toJson] at read
    simp only [type, Option.bind_eq_bind, Option.bind_some, Option.bind_eq_some_iff,
      MessageDefinition.ofFields?] at read
    obtain ⟨_, ⟨_, -, _, -, _, hattributes, -⟩, -⟩ := read
    exact Demands.of_required (by simp [toJson, locationField, MessageDefinition.fields])
      (demands_flatMap fun e _ => Attribute.demands _ e) hattributes
  | _ => exact List.forall_mem_nil _

theorem MessageSection.demands (s : MessageSection) :
    Demands s.toJson ofJson? (AllFinite s.numbers) := by
  intro a read
  have whole (shape : Shape) : shape.record? s.toJson = some s.toJson := rfl
  simp only [ofJson?, whole, Option.bind_eq_bind, Option.bind_some,
    Option.bind_eq_some_iff] at read
  obtain ⟨_, -, _, hmessages, -⟩ := read
  exact Demands.of_required (by simp [toJson, locationField])
    (demands_flatMap fun m _ => m.demands) hmessages

theorem MappedRow.demands (r : MappedRow) : Demands r.toJson ofJson? (AllFinite r.numbers) := by
  intro a read
  have whole (shape : Shape) : shape.record? r.toJson = some r.toJson := rfl
  simp only [ofJson?, whole, Option.bind_eq_bind, Option.bind_some,
    Option.bind_eq_some_iff] at read
  obtain ⟨_, hvalues, -⟩ := read
  exact Demands.of_required (by simp [toJson, locationField])
    (demands_flatMap fun v _ => v.demands_ofJson? _) hvalues

theorem MappedType.demands (m : MappedType) : Demands m.toJson ofJson? (AllFinite m.numbers) := by
  intro a read
  have whole (shape : Shape) : shape.record? m.toJson = some m.toJson := rfl
  simp only [ofJson?, whole, Option.bind_eq_bind, Option.bind_some,
    Option.bind_eq_some_iff] at read
  obtain ⟨_, -, _, -, _, hrows, -⟩ := read
  exact Demands.of_required (by simp [toJson, locationField])
    (demands_flatMap fun r _ => r.demands) hrows

theorem SettingsSection.demands (s : SettingsSection) :
    Demands s.toJson ofJson? (AllFinite s.numbers) := by
  intro a read
  have whole (shape : Shape) : shape.record? s.toJson = some s.toJson := rfl
  simp only [ofJson?, whole, Option.bind_eq_bind, Option.bind_some,
    Option.bind_eq_some_iff] at read
  obtain ⟨_, -, _, hattributes, _, hmapped, -⟩ := read
  refine List.forall_mem_append.mpr ⟨?_, ?_⟩
  · exact Demands.of_required (by simp [toJson, locationField])
      (demands_flatMap fun e _ => Attribute.demands _ e) hattributes
  · exact allFinite_of_defaulted (by simp [toJson, locationField])
      (fun m _ => m.demands) hmapped

theorem Agent.demands (a : Agent) : Demands a.toJson ofJson? (AllFinite a.numbers) := by
  intro b read
  have whole (shape : Shape) : shape.record? a.toJson = some a.toJson := rfl
  simp only [ofJson?, whole, Option.bind_eq_bind, Option.bind_some,
    Option.bind_eq_some_iff] at read
  obtain ⟨_, -, _, -, _, -, _, hconfig, _, hdefaults, _, hflows, _, hmessages, -⟩ := read
  refine List.forall_mem_append.mpr ⟨?_, List.forall_mem_append.mpr ⟨?_,
    List.forall_mem_append.mpr ⟨?_, ?_⟩⟩⟩
  · exact allFinite_of_optional SettingsSection.toJson
      (by simp +contextual [toJson, locationField])
      (fun _ => ⟨_, rfl⟩) (fun s _ => s.demands) hconfig
  · exact allFinite_of_optional SettingsSection.toJson
      (by simp +contextual [toJson, locationField])
      (fun _ => ⟨_, rfl⟩) (fun s _ => s.demands) hdefaults
  · exact Demands.of_required (by simp [toJson, locationField])
      (demands_flatMap fun f _ => f.demands) hflows
  · exact allFinite_of_optional MessageSection.toJson
      (by simp +contextual [toJson, locationField, nullable]) (fun _ => ⟨_, rfl⟩)
      (fun s _ => s.demands) hmessages

theorem SourceFile.demands (f : SourceFile) : Demands f.toJson ofJson? (AllFinite f.numbers) := by
  intro a read
  have whole (shape : Shape) : shape.record? f.toJson = some f.toJson := rfl
  simp only [ofJson?, whole, Option.bind_eq_bind, Option.bind_some,
    Option.bind_eq_some_iff] at read
  obtain ⟨_, -, _, hagent, -⟩ := read
  exact allFinite_of_optional Agent.toJson (by simp +contextual [toJson, locationField, nullable])
    (fun _ => ⟨_, rfl⟩) (fun a _ => a.demands) hagent

end AgentScript
