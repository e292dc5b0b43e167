import AgentScript.Validation
import Mathlib.Data.List.Nodup

/-!
# Errors of validation

An agent works if it has its parts, if no name is given twice, if its rows are as wide as their
schemas, and if its carousels have two to ten cards. Whatever is missing or does not fit is an
error of its own. The check of names goes along a list with the names seen so far; what it finds
are the members that have a name, all of them but the first.
-/
namespace AgentScript

namespace Agent

/-- The mapped types of the settings and of the defaults. -/
def mappedTypes (a : Agent) : List MappedType :=
  (a.config.toList ++ a.defaults.toList).flatMap (·.mappedTypes)

/-- The messages, of which there are none without a section for them. -/
def messageList (a : Agent) : List Message := (a.messages.map (·.messages)).getD []

/-- An agent without anything that validation takes for an error. -/
structure Works (a : Agent) : Prop where
  displayName : a.displayName ≠ none
  flow : a.flows ≠ []
  messages : a.messages ≠ none
  flowNames : (a.flows.map (·.name)).Nodup
  messageNames : (a.messageList.filterMap (·.name)).Nodup
  rows : ∀ m ∈ a.mappedTypes, ∀ r ∈ m.rows, r.values.length = m.schema.length
  carousels : ∀ h width cards, .carousel h width cards ∈ a.messageList →
    2 ≤ cards.length ∧ cards.length ≤ 10

end Agent

/-- The number of cards, where the message is a carousel. -/
def Message.cardCount? : Message → Option Nat
  | carousel _ _ cards => some cards.length
  | _ => none

/-- The places in an agent to which a cause of an error applies, each as often as it does. -/
def Agent.places (a : Agent) : FindingCause → List (Option Location)
  | .missingDisplayName agent =>
    if a.displayName = none ∧ a.name = agent then [a.location] else []
  | .missingFlow agent => if a.flows.isEmpty ∧ a.name = agent then [a.location] else []
  | .missingMessages agent => if a.messages.isNone ∧ a.name = agent then [a.location] else []
  | .rowWidth type found expected =>
    if found = expected then []
    else
      (a.mappedTypes.filter fun m => m.name = type ∧ m.schema.length = expected).flatMap fun m =>
        (m.rows.filter (·.values.length = found)).map (·.location)
  | .duplicateFlow name => (a.flows.filter (·.name = name)).tail.map (·.location)
  | .duplicateMessage name => (a.messageList.filter (·.name = some name)).tail.map (·.location)
  | .carouselSize found =>
    if 2 ≤ found ∧ found ≤ 10 then []
    else (a.messageList.filter (·.cardCount? = some found)).map (·.location)
  | .missingAgent => []
  | .unknownDestination _ _ => []

namespace SourceFile

/-- The places in a file to which a cause of an error applies. -/
def places (f : SourceFile) (c : FindingCause) : List (Option Location) :=
  match f.agent with
  | some a => a.places c
  | none => if c = .missingAgent then [f.location] else []

/-- The findings that are errors. -/
def defects (f : SourceFile) : List Finding := f.findings.filter (·.cause.severity = .error)

end SourceFile

/-- The checks, one after the other. -/
inductive Validation.Stage
  | file | parts | rows | flowNames | messages | destinations
deriving DecidableEq

/-- The check that finds a cause. -/
def FindingCause.stage : FindingCause → Validation.Stage
  | missingAgent => .file
  | missingDisplayName _ | missingFlow _ | missingMessages _ => .parts
  | rowWidth _ _ _ => .rows
  | duplicateFlow _ => .flowNames
  | duplicateMessage _ | carouselSize _ => .messages
  | unknownDestination _ _ => .destinations

theorem FindingCause.severity_eq_warning_iff {c : FindingCause} :
    c.severity = .warning ↔ c.stage = .destinations := by
  cases c <;> simp [severity, stage]

namespace Finding

/-- Where the findings of a cause are. -/
def places (c : FindingCause) (fs : List Finding) : List (Option Location) :=
  (fs.filter (·.cause = c)).map (·.location)

variable {c c' : FindingCause} {fs fs' : List Finding} {condition : Bool} {l : Option Location}

@[simp] theorem places_nil : places c [] = [] := rfl

@[simp] theorem places_append : places c (fs ++ fs') = places c fs ++ places c fs' := by
  simp [places]

theorem places_flatMap {α : Type} (check : α → List Finding) (xs : List α) :
    places c (xs.flatMap check) = xs.flatMap fun x => places c (check x) := by
  induction xs with
  | nil => rfl
  | cons x xs ih => rw [List.flatMap_cons, List.flatMap_cons, places_append, ih]

@[simp] theorem places_when :
    places c (Finding.when condition c' l) = if condition = true ∧ c' = c then [l] else [] := by
  unfold Finding.when
  by_cases hc : c' = c <;> cases condition <;> simp [places, hc]

theorem places_eq_nil (h : ∀ x ∈ fs, x.cause ≠ c) : places c fs = [] := by
  simpa [places] using h

/-- A check finds nothing of a cause that another check is for. -/
theorem places_eq_nil_of_stage {stage : Validation.Stage} (h : ∀ x ∈ fs, x.cause.stage = stage)
    (hc : c.stage ≠ stage) : places c fs = [] :=
  places_eq_nil fun x hx hcause => hc (hcause ▸ h x hx)

/-- Findings of no cause are no findings. -/
theorem eq_nil_of_places (h : ∀ c, places c fs = []) : fs = [] := by
  cases fs with
  | nil => rfl
  | cons x fs =>
    have hx := h x.cause
    simp [places] at hx

theorem cause_of_mem_when {x : Finding} (h : x ∈ Finding.when condition c l) : x.cause = c := by
  unfold Finding.when at h
  split_ifs at h
  · rw [List.mem_singleton.mp h]
  · exact nomatch h

end Finding

namespace Validation

open Finding

/-- The members of a list that have a name, all of them where it has been seen before and else all
but the first: the head of the list is one of them if the name has been seen and is its own. -/
theorem tail_filter_cons {α : Type} {seen : Prop} [Decidable seen] {p : α → Bool} {x : α}
    {xs : List α} :
    (if seen then (x :: xs).filter p else ((x :: xs).filter p).tail) =
      (if seen ∧ p x = true then [x] else []) ++
        if p x = true ∨ seen then xs.filter p else (xs.filter p).tail := by
  by_cases hs : seen <;> by_cases hp : p x = true <;> simp [hs, hp]

theorem places_checkFlowNames (seen : List String) (flows : List Flow) (name : String) :
    places (.duplicateFlow name) (checkFlowNames seen flows) =
      (if name ∈ seen then flows.filter (·.name = name)
        else (flows.filter (·.name = name)).tail).map (·.location) := by
  -- Where the name has been seen already, its first bearer is reported too.
  induction flows generalizing seen with
  | nil => simp [checkFlowNames]
  | cons f flows ih =>
    rw [checkFlowNames, places_append, places_when, ih, tail_filter_cons, List.map_append]
    congr 1
    · by_cases hname : f.name = name <;> by_cases hseen : name ∈ seen <;> simp [hname, hseen]
    · simp [eq_comm]

theorem stage_of_mem_checkFlowNames {seen : List String} {flows : List Flow} {x : Finding}
    (h : x ∈ checkFlowNames seen flows) : x.cause.stage = .flowNames := by
  induction flows generalizing seen with
  | nil => exact nomatch h
  | cons f flows ih =>
    rcases List.mem_append.mp h with h | h
    · rw [cause_of_mem_when h]
      rfl
    · exact ih h

theorem cause_of_mem_checkMessageName {seen : List String} {m : Message} {x : Finding}
    (h : x ∈ checkMessageName seen m) : ∃ name, x.cause = .duplicateMessage name := by
  unfold checkMessageName at h
  split at h
  · exact nomatch h
  · exact ⟨_, cause_of_mem_when h⟩

theorem cause_of_mem_checkCarousel {m : Message} {x : Finding} (h : x ∈ checkCarousel m) :
    ∃ found, x.cause = .carouselSize found := by
  unfold checkCarousel at h
  split at h
  · exact ⟨_, cause_of_mem_when h⟩
  · exact nomatch h

theorem places_checkMessageName (seen : List String) (m : Message) (name : String) :
    places (.duplicateMessage name) (checkMessageName seen m) =
      if name ∈ seen ∧ m.name = some name then [m.location] else [] := by
  unfold checkMessageName
  split
  · next hname => simp [hname]
  · next other hname =>
    rw [places_when, hname]
    by_cases heq : other = name <;> by_cases hseen : name ∈ seen <;> simp [heq, hseen]

theorem places_checkCarousel (m : Message) (found : Nat) :
    places (.carouselSize found) (checkCarousel m) =
      if 2 ≤ found ∧ found ≤ 10 then []
      else if m.cardCount? = some found then [m.location] else [] := by
  unfold checkCarousel
  split
  · next h width cards =>
    rw [places_when, leastCards, mostCards, Message.cardCount?, Message.location, Message.header]
    by_cases heq : cards.length = found
    · subst heq
      by_cases hfits : 2 ≤ cards.length ∧ cards.length ≤ 10
      · simp [hfits, Nat.not_lt.mpr hfits.1, Nat.not_lt.mpr hfits.2]
      · have hmisses : (decide (cards.length < 2) || decide (10 < cards.length)) = true := by
          rw [Bool.or_eq_true, decide_eq_true_eq, decide_eq_true_eq]
          omega
        rw [if_neg hfits, if_pos ⟨hmisses, rfl⟩, if_pos rfl]
    · simp [heq]
  · next hother =>
    have hnone : m.cardCount? = none := by
      cases m <;> simp_all [Message.cardCount?]
    simp [hnone]

theorem places_checkMessages_name (seen : List String) (messages : List Message) (name : String) :
    places (.duplicateMessage name) (checkMessages seen messages) =
      (if name ∈ seen then messages.filter (·.name = some name)
        else (messages.filter (·.name = some name)).tail).map (·.location) := by
  induction messages generalizing seen with
  | nil => simp [checkMessages]
  | cons m messages ih =>
    have hcarousel : places (.duplicateMessage name) (checkCarousel m) = [] := by
      refine places_eq_nil fun x hx => ?_
      obtain ⟨found, hfound⟩ := cause_of_mem_checkCarousel hx
      simp [hfound]
    rw [checkMessages, places_append, places_append, hcarousel, List.append_nil,
      places_checkMessageName, ih, tail_filter_cons, List.map_append]
    congr 1
    · by_cases hname : m.name = some name <;> by_cases hseen : name ∈ seen <;> simp [hname, hseen]
    · simp

theorem places_checkMessages_size (seen : List String) (messages : List Message) (found : Nat) :
    places (.carouselSize found) (checkMessages seen messages) =
      if 2 ≤ found ∧ found ≤ 10 then []
      else (messages.filter (·.cardCount? = some found)).map (·.location) := by
  induction messages generalizing seen with
  | nil => simp [checkMessages]
  | cons m messages ih =>
    have hname : places (.carouselSize found) (checkMessageName seen m) = [] := by
      refine places_eq_nil fun x hx => ?_
      obtain ⟨name, hcause⟩ := cause_of_mem_checkMessageName hx
      simp [hcause]
    rw [checkMessages, places_append, places_append, hname, List.nil_append, places_checkCarousel,
      ih]
    by_cases hfits : 2 ≤ found ∧ found ≤ 10 <;> by_cases hcount : m.cardCount? = some found <;>
      simp [hfits, hcount]

theorem stage_of_mem_checkMessages {seen : List String} {messages : List Message} {x : Finding}
    (h : x ∈ checkMessages seen messages) : x.cause.stage = .messages := by
  induction messages generalizing seen with
  | nil => exact nomatch h
  | cons m messages ih =>
    rcases List.mem_append.mp h with h | h
    · rcases List.mem_append.mp h with h | h
      · obtain ⟨name, hname⟩ := cause_of_mem_checkMessageName h
        rw [hname]
        rfl
      · obtain ⟨found, hfound⟩ := cause_of_mem_checkCarousel h
        rw [hfound]
        rfl
    · exact ih h

theorem places_checkRow (m : MappedType) (r : MappedRow) (type : String) (found expected : Nat) :
    places (.rowWidth type found expected) (checkRow m r) =
      if found ≠ expected ∧ (m.name = type ∧ m.schema.length = expected) ∧ r.values.length = found
      then [r.location] else [] := by
  rw [checkRow, places_when]
  congr 1
  simp only [FindingCause.rowWidth.injEq, bne_iff_ne, eq_iff_iff]
  constructor
  · rintro ⟨hne, hname, rfl, rfl⟩
    exact ⟨hne, ⟨hname, rfl⟩, rfl⟩
  · rintro ⟨hne, ⟨hname, rfl⟩, rfl⟩
    exact ⟨hne, hname, rfl, rfl⟩

theorem places_checkMappedTypes (s : SettingsSection) (type : String) (found expected : Nat) :
    places (.rowWidth type found expected) (checkMappedTypes s) =
      if found = expected then []
      else (s.mappedTypes.filter fun m => m.name = type ∧ m.schema.length = expected).flatMap
        fun m => (m.rows.filter (·.values.length = found)).map (·.location) := by
  rw [checkMappedTypes, places_flatMap]
  by_cases hwide : found = expected
  · simp [hwide, places_flatMap, places_checkRow]
  rw [if_neg hwide]
  induction s.mappedTypes with
  | nil => rfl
  | cons m types ih =>
    rw [List.flatMap_cons, ih, places_flatMap]
    have hrows : (m.rows.flatMap fun r =>
        places (.rowWidth type found expected) (checkRow m r)) =
        if m.name = type ∧ m.schema.length = expected then
          (m.rows.filter (·.values.length = found)).map (·.location) else [] := by
      by_cases hm : m.name = type ∧ m.schema.length = expected
      · induction m.rows with
        | nil => simp
        | cons r rows ihrows =>
          rw [List.flatMap_cons, ihrows, places_checkRow]
          by_cases hr : r.values.length = found <;> simp [hwide, hm, hr]
      · simp [places_checkRow, hm]
    rw [hrows]
    by_cases hm : m.name = type ∧ m.schema.length = expected <;> simp [hm]

theorem stage_of_mem_checkSettings {sections : List SettingsSection} {x : Finding}
    (h : x ∈ sections.flatMap checkMappedTypes) : x.cause.stage = .rows := by
  obtain ⟨s, -, hs⟩ := List.mem_flatMap.mp h
  obtain ⟨m, -, hm⟩ := List.mem_flatMap.mp hs
  obtain ⟨r, -, hr⟩ := List.mem_flatMap.mp hm
  rw [cause_of_mem_when hr]
  rfl

theorem stage_of_mem_checkParts {a : Agent} {x : Finding} (h : x ∈ checkParts a) :
    x.cause.stage = .parts := by
  rcases List.mem_append.mp h with h | h
  · rcases List.mem_append.mp h with h | h <;> (rw [cause_of_mem_when h]; rfl)
  · rw [cause_of_mem_when h]
    rfl

theorem stage_of_mem_checkDestinations {messages : List String} {f : Flow} {x : Finding}
    (h : x ∈ checkDestinations messages f) : x.cause.stage = .destinations := by
  obtain ⟨entry, -, rfl⟩ := List.mem_map.mp h
  rfl

theorem places_checkParts (a : Agent) {c : FindingCause} (hc : c.stage = .parts) :
    places c (checkParts a) = a.places c := by
  unfold checkParts
  cases c with
  | missingDisplayName | missingFlow | missingMessages => simp [Agent.places]
  | _ => cases hc

theorem places_checkSettings (a : Agent) (type : String) (found expected : Nat) :
    places (.rowWidth type found expected)
      ((a.config.toList ++ a.defaults.toList).flatMap checkMappedTypes) =
      a.places (.rowWidth type found expected) := by
  rw [places_flatMap, Agent.places, Agent.mappedTypes]
  by_cases hwide : found = expected
  · simp [hwide, places_checkMappedTypes]
  · rw [if_neg hwide, List.filter_flatMap, List.flatMap_assoc]
    simp only [places_checkMappedTypes, if_neg hwide]

theorem places_checkAgent (a : Agent) {c : FindingCause} (hc : c.severity = .error) :
    places c (checkAgent a) = a.places c := by
  have hparts : c.stage ≠ .parts → places c (checkParts a) = [] :=
    places_eq_nil_of_stage fun _ => stage_of_mem_checkParts
  have hrows : c.stage ≠ .rows →
      places c ((a.config.toList ++ a.defaults.toList).flatMap checkMappedTypes) = [] :=
    places_eq_nil_of_stage fun _ => stage_of_mem_checkSettings
  have hflows : c.stage ≠ .flowNames → places c (checkFlowNames [] a.flows) = [] :=
    places_eq_nil_of_stage fun _ => stage_of_mem_checkFlowNames
  have hmessages : c.stage ≠ .messages → places c (checkMessages [] a.messageList) = [] :=
    places_eq_nil_of_stage fun _ => stage_of_mem_checkMessages
  have hdestinations : places c
      (a.flows.flatMap (checkDestinations ((a.messages.map (·.names)).getD []))) = [] := by
    refine places_eq_nil fun x hx hcause => ?_
    obtain ⟨f, -, hf⟩ := List.mem_flatMap.mp hx
    have hwarning := FindingCause.severity_eq_warning_iff.mpr
      (hcause ▸ stage_of_mem_checkDestinations hf)
    rw [hc] at hwarning
    exact nomatch hwarning
  rw [checkAgent, places_append, places_append, places_append, places_append, hdestinations,
    List.append_nil]
  change _ ++ places c (checkMessages [] a.messageList) = _
  -- Only one of the checks finds the cause; the others find nothing of it.
  cases c with
  | missingAgent => rw [hparts nofun, hrows nofun, hflows nofun, hmessages nofun]; rfl
  | missingDisplayName | missingFlow | missingMessages =>
    rw [places_checkParts a rfl, hrows nofun, hflows nofun, hmessages nofun]
    simp
  | rowWidth type found expected =>
    rw [hparts nofun, places_checkSettings, hflows nofun, hmessages nofun]
    simp
  | duplicateFlow name =>
    rw [hparts nofun, hrows nofun, places_checkFlowNames, hmessages nofun]
    simp [Agent.places]
  | duplicateMessage name =>
    rw [hparts nofun, hrows nofun, hflows nofun, places_checkMessages_name]
    simp [Agent.places]
  | carouselSize found =>
    rw [hparts nofun, hrows nofun, hflows nofun, places_checkMessages_size]
    rfl
  | unknownDestination => cases hc

end Validation

/-- No name is given twice if every name has one bearer at most. -/
theorem nodup_filterMap_iff {α : Type} {name : α → Option String} {xs : List α} :
    (xs.filterMap name).Nodup ↔ ∀ n, (xs.filter (name · = some n)).tail = [] := by
  rw [List.nodup_iff_count_le_one]
  refine forall_congr' fun n => ?_
  have hcount : (xs.filterMap name).count n = (xs.filter (name · = some n)).length := by
    rw [List.count_filterMap, List.countP_eq_length_filter]
    exact congrArg _ (List.filter_congr fun x _ => beq_eq_decide _ _)
  rw [hcount, ← List.length_eq_zero_iff, List.length_tail]
  omega

theorem nodup_map_iff {α : Type} {name : α → String} {xs : List α} :
    (xs.map name).Nodup ↔ ∀ n, (xs.filter (name · = n)).tail = [] := by
  rw [← List.filterMap_eq_map, nodup_filterMap_iff]
  simp

namespace Agent

theorem places_rowWidth_iff (a : Agent) :
    (∀ type found expected, a.places (.rowWidth type found expected) = []) ↔
      ∀ m ∈ a.mappedTypes, ∀ r ∈ m.rows, r.values.length = m.schema.length := by
  constructor
  · intro h m hm r hr
    by_contra hwide
    have hplace := h m.name r.values.length m.schema.length
    simp only [places, if_neg hwide, List.flatMap_eq_nil_iff, List.map_eq_nil_iff,
      List.filter_eq_nil_iff, List.mem_filter] at hplace
    exact hplace m ⟨hm, by simp⟩ r hr (by simp)
  · intro h type found expected
    rw [places]
    split_ifs with hwide
    · rfl
    · simp only [List.flatMap_eq_nil_iff, List.map_eq_nil_iff, List.filter_eq_nil_iff,
        List.mem_filter, decide_eq_true_eq]
      rintro m ⟨hm, -, rfl⟩ r hr rfl
      exact hwide (h m hm r hr)

theorem places_carouselSize_iff (a : Agent) :
    (∀ found, a.places (.carouselSize found) = []) ↔
      ∀ h width cards, .carousel h width cards ∈ a.messageList →
        2 ≤ cards.length ∧ cards.length ≤ 10 := by
  constructor
  · intro h header width cards hmem
    by_contra hsize
    have hplace := h cards.length
    simp only [places, if_neg hsize, List.map_eq_nil_iff, List.filter_eq_nil_iff] at hplace
    exact hplace _ hmem (by simp [Message.cardCount?])
  · intro h found
    rw [places]
    split_ifs with hsize
    · rfl
    · simp only [List.map_eq_nil_iff, List.filter_eq_nil_iff, decide_eq_true_eq]
      intro m hm hcount
      cases m with
      | carousel header width cards =>
        exact hsize (Option.some.inj hcount ▸ h header width cards hm)
      | _ => exact nomatch hcount

/-- An agent works if no cause applies to it anywhere. -/
theorem works_iff (a : Agent) : a.Works ↔ ∀ c, a.places c = [] := by
  constructor
  · intro h c
    cases c with
    | missingDisplayName => simp [places, h.displayName]
    | missingFlow => simp [places, h.flow]
    | missingMessages => simp [places, h.messages]
    | rowWidth => exact a.places_rowWidth_iff.mpr h.rows _ _ _
    | duplicateFlow name => simp [places, nodup_map_iff.mp h.flowNames name]
    | duplicateMessage name => simp [places, nodup_filterMap_iff.mp h.messageNames name]
    | carouselSize => exact a.places_carouselSize_iff.mpr h.carousels _
    | missingAgent | unknownDestination => rfl
  · intro h
    constructor
    · simpa [places] using h (.missingDisplayName a.name)
    · simpa [places] using h (.missingFlow a.name)
    · simpa [places] using h (.missingMessages a.name)
    · exact nodup_map_iff.mpr fun n => List.map_eq_nil_iff.mp (h (.duplicateFlow n))
    · exact nodup_filterMap_iff.mpr fun n => List.map_eq_nil_iff.mp (h (.duplicateMessage n))
    · exact a.places_rowWidth_iff.mp fun _ _ _ => h _
    · exact a.places_carouselSize_iff.mp fun _ => h _

end Agent

namespace SourceFile

theorem places_defects (f : SourceFile) (c : FindingCause) :
    Finding.places c f.defects = f.places c := by
  by_cases hc : c.severity = .error
  · have hfindings : Finding.places c f.findings = f.places c := by
      unfold findings places
      cases f.agent with
      | none => by_cases hmissing : c = .missingAgent <;> simp [Finding.places, hmissing, eq_comm]
      | some a => exact Validation.places_checkAgent a hc
    rw [← hfindings, Finding.places, defects, List.filter_filter, Finding.places]
    congr 1
    refine List.filter_congr fun x _ => ?_
    by_cases hx : x.cause = c <;> simp [hx, hc]
  · have hnone : Finding.places c f.defects = [] := by
      refine Finding.places_eq_nil fun x hx hcause => hc ?_
      simpa [hcause] using (List.mem_filter.mp hx).2
    rw [hnone, places]
    cases c with
    | unknownDestination => cases f.agent <;> rfl
    | _ => exact absurd rfl hc

theorem defects_eq_nil_iff (f : SourceFile) :
    f.defects = [] ↔ ∃ a, f.agent = some a ∧ a.Works := by
  have hplaces : f.defects = [] ↔ ∀ c, f.places c = [] := by
    simp only [← f.places_defects]
    exact ⟨fun h c => by rw [h, Finding.places_nil], Finding.eq_nil_of_places⟩
  rw [hplaces]
  unfold places
  cases f.agent with
  | none => simp
  | some a => simp [a.works_iff]

theorem errors_validate (f : SourceFile) :
    f.validate.filter (·.isError) = f.defects.map (·.toIssue) := by
  rw [validate, List.filter_map, defects]
  exact congrArg _ (List.filter_congr fun x _ => beq_eq_decide _ _)

end SourceFile

/-- Validation finds no error in a file just if it has an agent that works. Its errors are those of
the places to which a cause of an error applies, one error a place. -/
theorem SourceFile.validate_errors (f : SourceFile) :
    ((∀ i ∈ f.validate, i.severity ≠ .error) ↔ ∃ a, f.agent = some a ∧ a.Works) ∧
      f.validate.filter (·.isError) = f.defects.map (·.toIssue) ∧
        ∀ c, Finding.places c f.defects = f.places c := by
  refine ⟨?_, f.errors_validate, f.places_defects⟩
  rw [← f.defects_eq_nil_iff, ← List.map_eq_nil_iff (f := Finding.toIssue), ← f.errors_validate,
    List.filter_eq_nil_iff]
  simp [Issue.isError]

end AgentScript
