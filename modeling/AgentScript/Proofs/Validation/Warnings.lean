import AgentScript.Proofs.Validation.Errors

/-!
# Warnings of validation

Validation warns of the names where a flow can lead without there being a message or a state of the
name. The check collects all of them, each with the place of its rule, and then keeps the first
of every name. So the warnings of a flow are in the order in which their names first occur.
-/
namespace AgentScript

/-- The names of the identifiers where a rule can lead, in the order of the text. -/
def FlowRule.destinationNames (r : FlowRule) : List String :=
  (r.destinations.filter (·.type = .identifier)).map (·.value)

namespace Flow

def destinationNames (f : Flow) : List String := f.rules.flatMap (·.destinationNames)

/-- Some rule of the flow starts from the identifier. -/
def StartsFrom (f : Flow) (name : String) : Prop :=
  ∃ r ∈ f.rules, ∃ o, r.source? = some o ∧ o.type = .identifier ∧ o.value = name

/-- The first rule that can lead to the name. -/
def ruleTo? (f : Flow) (name : String) : Option FlowRule :=
  f.rules.find? (name ∈ ·.destinationNames)

end Flow

namespace Agent

def HasMessage (a : Agent) (name : String) : Prop := ∃ m ∈ a.messageList, m.name = some name

/-- The names are those where the flow can lead and where there is nothing, each of them once and in
the order in which they first occur. -/
structure LeadsNowhere (a : Agent) (f : Flow) (names : List String) : Prop where
  mem_iff : ∀ name, name ∈ names ↔
    name ∈ f.destinationNames ∧ ¬ a.HasMessage name ∧ ¬ f.StartsFrom name
  ordered : names.Pairwise fun m n => f.destinationNames.idxOf m < f.destinationNames.idxOf n

end Agent

/-- What validation says of a name that leads nowhere. -/
def Flow.warning (f : Flow) (name : String) : Issue :=
  ⟨.warning, s!"'{name}' in flow '{f.name}' is neither a message nor a flow state",
    (f.ruleTo? name).bind (·.location)⟩

namespace Validation

variable {seen known : List String} {entries : List (String × Option Location)} {name : String}

theorem mem_firstByName :
    name ∈ (firstByName seen entries).map Prod.fst ↔ name ∈ entries.map Prod.fst ∧ name ∉ seen := by
  induction entries generalizing seen with
  | nil => simp [firstByName]
  | cons entry entries ih =>
    obtain ⟨other, l⟩ := entry
    rw [firstByName]
    split_ifs with hseen
    · rw [ih]
      by_cases hname : name = other <;> simp_all
    · rw [List.map_cons, List.mem_cons, ih]
      by_cases hname : name = other <;> simp_all

theorem find?_of_mem_firstByName {entry : String × Option Location}
    (h : entry ∈ firstByName seen entries) : entries.find? (·.1 = entry.1) = some entry := by
  induction entries generalizing seen with
  | nil => exact nomatch h
  | cons first entries ih =>
    obtain ⟨other, l⟩ := first
    have hne (seen : List String) (hseen : other ∈ seen)
        (hentry : entry ∈ firstByName seen entries) : other ≠ entry.1 := by
      rintro rfl
      exact (mem_firstByName.mp (List.mem_map_of_mem hentry)).2 hseen
    rw [firstByName] at h
    split_ifs at h with hseen
    · rw [List.find?_cons_of_neg (by simpa using hne _ (by simpa using hseen) h)]
      exact ih h
    · rcases List.mem_cons.mp h with rfl | h
      · simp
      · rw [List.find?_cons_of_neg (by simpa using hne _ List.mem_cons_self h)]
        exact ih h

/-- The first entries have the order of all names, among which the entries can be few. -/
theorem pairwise_firstByName {p : String → Bool} {names : List String}
    (h : entries.map Prod.fst = names.filter p) :
    ((firstByName seen entries).map Prod.fst).Pairwise
      fun m n => names.idxOf m < names.idxOf n := by
  induction names generalizing seen entries with
  | nil =>
    obtain rfl : entries = [] := List.map_eq_nil_iff.mp h
    exact .nil
  | cons x names ih =>
    -- Names other than the head are one further on.
    have hlater {seen : List String} {entries : List (String × Option Location)}
        (h : entries.map Prod.fst = names.filter p)
        (hx : x ∉ (firstByName seen entries).map Prod.fst) :
        ((firstByName seen entries).map Prod.fst).Pairwise
          fun m n => (x :: names).idxOf m < (x :: names).idxOf n := by
      refine (ih h).imp_of_mem fun {m n} hm hn hlt => ?_
      rw [List.idxOf_cons_ne _ (ne_of_mem_of_not_mem hm hx).symm,
        List.idxOf_cons_ne _ (ne_of_mem_of_not_mem hn hx).symm]
      omega
    by_cases hp : p x = true
    · rw [List.filter_cons_of_pos hp] at h
      obtain ⟨⟨_, l⟩, entries, rfl, rfl, hentries⟩ := List.map_eq_cons_iff.mp h
      rename_i x
      have hx {seen : List String} (hseen : x ∈ seen) :
          x ∉ (firstByName seen entries).map Prod.fst :=
        fun hmem => (mem_firstByName.mp hmem).2 hseen
      rw [firstByName]
      split_ifs with hseen
      · exact hlater hentries (hx (by simpa using hseen))
      · rw [List.map_cons, List.pairwise_cons]
        refine ⟨fun n hn => ?_, hlater hentries (hx List.mem_cons_self)⟩
        have hne : x ≠ n := (ne_of_mem_of_not_mem hn (hx List.mem_cons_self)).symm
        simp [List.idxOf_cons_ne _ hne]
    · rw [List.filter_cons_of_neg hp] at h
      refine hlater h fun hmem => hp ?_
      have hentry := (mem_firstByName.mp hmem).1
      rw [h] at hentry
      exact (List.mem_filter.mp hentry).2

theorem unknownDestinations_eq (known : List String) (rules : List FlowRule) :
    unknownDestinations known rules = rules.flatMap fun r =>
      (r.destinationNames.filter (· ∉ known)).map fun name => (name, r.location) := by
  have hoperands (operands : List Operand) (l : Option Location) :
      ((operands.filter (isUnknown known)).map fun o => (o.value, l)) =
        (((operands.filter (·.type = .identifier)).map (·.value)).filter (· ∉ known)).map
          fun name => (name, l) := by
    rw [List.filter_map, List.map_map, List.filter_filter]
    congr 1
    refine List.filter_congr fun o _ => ?_
    simp [isUnknown, Bool.and_comm]
  exact List.flatMap_congr fun r _ => hoperands r.destinations r.location

theorem map_unknownDestinations (known : List String) (f : Flow) :
    (unknownDestinations known f.rules).map Prod.fst = f.destinationNames.filter (· ∉ known) := by
  rw [unknownDestinations_eq, List.map_flatMap, Flow.destinationNames, List.filter_flatMap]
  simp [Function.comp_def]

theorem find?_unknownDestinations (rules : List FlowRule) (h : name ∉ known) :
    (unknownDestinations known rules).find? (·.1 = name) =
      (rules.find? (name ∈ ·.destinationNames)).map fun r => (name, r.location) := by
  rw [unknownDestinations_eq]
  induction rules with
  | nil => rfl
  | cons r rules ih =>
    have hrule : ((r.destinationNames.filter (· ∉ known)).map fun n => (n, r.location)).find?
        (·.1 = name) = if name ∈ r.destinationNames then some (name, r.location) else none := by
      induction r.destinationNames with
      | nil => rfl
      | cons n names ih =>
        by_cases hn : n = name
        · simp [hn, h]
        · by_cases hknown : n ∈ known <;> simpa [hknown, hn, Ne.symm hn] using ih
    rw [List.flatMap_cons, List.find?_append, hrule, ih]
    by_cases hmem : name ∈ r.destinationNames <;> simp [hmem]

/-- The names of the messages of an agent. -/
def messageNames (a : Agent) : List String := (a.messages.map (·.names)).getD []

theorem mem_messageNames {a : Agent} : name ∈ messageNames a ↔ a.HasMessage name := by
  unfold messageNames Agent.HasMessage Agent.messageList
  cases a.messages with
  | none => simp
  | some s => exact List.mem_filterMap

theorem mem_sources {f : Flow} : name ∈ f.sources ↔ f.StartsFrom name := by
  simp only [Flow.sources, List.mem_filterMap, Flow.StartsFrom]
  constructor
  · rintro ⟨o, ⟨r, hr, ho⟩, hname⟩
    split_ifs at hname with htype
    exact ⟨r, hr, o, ho, htype, Option.some.inj hname⟩
  · rintro ⟨r, hr, o, ho, htype, rfl⟩
    exact ⟨o, ⟨r, hr, ho⟩, if_pos htype⟩

/-- The names of which validation warns in a flow. -/
def unresolved (a : Agent) (f : Flow) : List String :=
  (firstByName [] (unknownDestinations (messageNames a ++ f.sources) f.rules)).map Prod.fst

theorem mem_unresolved {a : Agent} {f : Flow} : name ∈ unresolved a f ↔
    name ∈ f.destinationNames ∧ ¬ a.HasMessage name ∧ ¬ f.StartsFrom name := by
  rw [unresolved, mem_firstByName, map_unknownDestinations, List.mem_filter, decide_eq_true_eq,
    List.mem_append, mem_messageNames, mem_sources, not_or]
  simp

theorem leadsNowhere_unresolved (a : Agent) (f : Flow) : a.LeadsNowhere f (unresolved a f) :=
  ⟨fun _ => mem_unresolved, pairwise_firstByName (map_unknownDestinations _ f)⟩

theorem issues_checkDestinations (a : Agent) (f : Flow) :
    (checkDestinations (messageNames a) f).map (·.toIssue) = (unresolved a f).map f.warning := by
  rw [checkDestinations, List.map_map, unresolved, List.map_map]
  refine List.map_congr_left fun entry hentry => ?_
  have hunknown : entry.1 ∉ messageNames a ++ f.sources := by
    have hname := (mem_firstByName.mp (List.mem_map_of_mem hentry)).1
    rw [map_unknownDestinations] at hname
    simpa using (List.mem_filter.mp hname).2
  have hrule := (find?_unknownDestinations f.rules hunknown).symm.trans
    (find?_of_mem_firstByName hentry)
  obtain ⟨r, hr, hentry⟩ := Option.map_eq_some_iff.mp hrule
  have hplace : entry.2 = (f.ruleTo? entry.1).bind (·.location) := by
    rw [Flow.ruleTo?, hr, Option.bind_some, ← hentry]
  exact congrArg (Issue.mk _ _) hplace

theorem warnings_checkAgent (a : Agent) :
    (checkAgent a).filter (·.cause.severity = .warning) =
      a.flows.flatMap (checkDestinations (messageNames a)) := by
  have hother (fs : List Finding) (stage : Stage) (hstage : stage ≠ .destinations)
      (h : ∀ x ∈ fs, x.cause.stage = stage) : fs.filter (·.cause.severity = .warning) = [] := by
    refine List.filter_eq_nil_iff.mpr fun x hx hwarning => hstage ?_
    rw [← h x hx, ← FindingCause.severity_eq_warning_iff]
    simpa using hwarning
  have hparts := hother (checkParts a) .parts (by decide) fun _ => stage_of_mem_checkParts
  have hrows := hother ((a.config.toList ++ a.defaults.toList).flatMap checkMappedTypes) .rows
    (by decide) fun _ => stage_of_mem_checkSettings
  have hflows := hother (checkFlowNames [] a.flows) .flowNames (by decide)
    fun _ => stage_of_mem_checkFlowNames
  have hmessages := hother (checkMessages [] a.messageList) .messages (by decide)
    fun _ => stage_of_mem_checkMessages
  rw [checkAgent, List.filter_append, List.filter_append, List.filter_append, List.filter_append,
    hparts, hrows, hflows]
  change _ ++ (checkMessages [] a.messageList).filter _ ++ _ = _
  rw [hmessages, List.filter_eq_self.mpr]
  · rfl
  · intro x hx
    obtain ⟨f, -, hf⟩ := List.mem_flatMap.mp hx
    simpa using FindingCause.severity_eq_warning_iff.mpr (stage_of_mem_checkDestinations hf)

end Validation

/-- Flow by flow validation warns of the names that lead nowhere, of each at the first rule that
leads there. -/
theorem SourceFile.validate_warnings (f : SourceFile) {a : Agent} (h : f.agent = some a) :
    ∃ names : Flow → List String, (∀ flow ∈ a.flows, a.LeadsNowhere flow (names flow)) ∧
      f.validate.filter (·.severity = .warning) =
        a.flows.flatMap fun flow => (names flow).map flow.warning := by
  refine ⟨Validation.unresolved a, fun flow _ => Validation.leadsNowhere_unresolved a flow, ?_⟩
  have hfindings : f.findings = Validation.checkAgent a := by rw [findings, h]
  have hwarnings : f.validate.filter (·.severity = .warning) =
      (f.findings.filter (·.cause.severity = .warning)).map (·.toIssue) := List.filter_map
  rw [hwarnings, hfindings, Validation.warnings_checkAgent, List.map_flatMap]
  exact List.flatMap_congr fun flow _ => Validation.issues_checkDestinations a flow

/-- An agent with a message `Hello` and two flows. The first leads twice to `Nowhere` and under a
condition to `Lost`, the second starts from `Nowhere`. -/
def strayingAgent : Agent :=
  let line (n : Nat) : Option Location := some ⟨⟨n, 1, 0⟩, ⟨n, 20, 0⟩⟩
  let state (name : String) : Operand := ⟨.identifier, name, none⟩
  { name := "Bot", displayName := some "Bot", brandName := none, config := none, defaults := none
    flows := [
      ⟨"Main", [
        ⟨[⟨.atom, "start", none⟩, state "Hello", state "Nowhere"], none, [], line 4⟩,
        ⟨[state "Hello", state "Nowhere"], none,
          [⟨.boolean true none, [state "Lost"], none, line 6⟩], line 5⟩], none⟩,
      ⟨"Side", [⟨[state "Nowhere", state "Lost"], none, [], line 8⟩], none⟩]
    messages := some ⟨none, [.text ⟨some "Hello", none, [], none⟩ "Hi"], none⟩, location := none }

/-- One warning of `Nowhere`, where it comes first, and one of `Lost` in each of the flows. -/
theorem validate_warnings_strayingAgent :
    let f : SourceFile := ⟨[], some strayingAgent, none⟩
    f.agent = some strayingAgent ∧
    (f.validate.filter (·.severity = .warning)).map
        (fun i => (i.message, i.location.map (·.start.line))) =
      [("'Nowhere' in flow 'Main' is neither a message nor a flow state", some 4),
        ("'Lost' in flow 'Main' is neither a message nor a flow state", some 5),
        ("'Lost' in flow 'Side' is neither a message nor a flow state", some 8)] ∧
    ∃ names : Flow → List String,
      (∀ flow ∈ strayingAgent.flows, strayingAgent.LeadsNowhere flow (names flow)) ∧
        f.validate.filter (·.severity = .warning) =
          strayingAgent.flows.flatMap fun flow => (names flow).map flow.warning :=
  ⟨rfl, by decide +kernel, SourceFile.validate_warnings _ rfl⟩

end AgentScript
