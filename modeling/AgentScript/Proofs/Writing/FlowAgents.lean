import AgentScript.Proofs.Writing.Objections

/-!
# Agents with flows

An agent with nothing but flows is written from its rules, whatever a rule says and however many
lines it takes. It is read as it was written if every rule is accepted, and there are errors if one
is objected to.
-/
namespace AgentScript

open Writing AgentScript.Parser

/-- How rules are written: each on a line with others below it. -/
structure RuleStyle (κ ι : Type) where
  head : κ → ι
  below : κ → List ι
  text : ι → List Char
  tree : κ → FlowRule

structure RuleFlow (κ : Type) where
  name : Name
  rules : List κ

/-- An agent with nothing but flows. -/
structure FlowAgent (κ : Type) where
  name : Name
  flows : List (RuleFlow κ)

variable {κ ι : Type}

/-- A line of an agent: a header, or a line of a rule. -/
inductive FlowLine (ι : Type)
  | header (form : SectionForm) (name : Option Name)
  | inner (l : ι)

namespace FlowLine

def text (style : RuleStyle κ ι) : FlowLine ι → List Char
  | header form name => headerText form name
  | inner l => style.text l

def forms (words : ι → List TokenForm) : FlowLine ι → List TokenForm
  | header form name => headerForms form name
  | inner l => words l

end FlowLine

namespace RuleStyle

/-- The lines of a rule. -/
def outline (style : RuleStyle κ ι) (r : κ) : FlowLine ι × Outline (FlowLine ι) :=
  (.inner (style.head r), .ofList ((style.below r).map fun l => (.inner l, .nil)))

end RuleStyle

namespace RuleFlow

def outline (style : RuleStyle κ ι) (f : RuleFlow κ) : FlowLine ι × Outline (FlowLine ι) :=
  (.header .flow f.name, .ofList (f.rules.map style.outline))

def tree (style : RuleStyle κ ι) (f : RuleFlow κ) : Flow :=
  ⟨f.name.text, f.rules.map style.tree, none⟩

end RuleFlow

namespace FlowAgent

def outline (style : RuleStyle κ ι) (a : FlowAgent κ) : Outline (FlowLine ι) :=
  .ofList [(.header .agent a.name, .ofList (a.flows.map (RuleFlow.outline style)))]

/-- The agent as it is written. -/
def print (style : RuleStyle κ ι) (a : FlowAgent κ) : String :=
  String.ofList ((a.outline style).print (FlowLine.text style) 0)

def agent (style : RuleStyle κ ι) (a : FlowAgent κ) : Agent :=
  ⟨a.name.text, none, none, none, none, a.flows.map (RuleFlow.tree style), none, none⟩

/-- The tree of the file, without locations. -/
def tree (style : RuleStyle κ ι) (a : FlowAgent κ) : SourceFile := ⟨[], some (a.agent style), none⟩

end FlowAgent

namespace RuleStyle

variable (style : RuleStyle κ ι) (words : ι → List TokenForm)

/-- The lines of the rule are read as their tokens, and these are accepted as the rule. -/
structure Accepted (r : κ) : Prop where
  lines : ∀ l ∈ style.head r :: style.below r, LineReadsAs (style.text l) (words l)
  accepts : flowRule.Accepts (Outline.itemForms (FlowLine.forms words) (style.outline r))
    (· ≠ .indent) (·.erased = style.tree r)

/-- The rule is read up to a token, and what has been read there is objected to. -/
def Objected (r : κ) : Prop :=
  ∃ forms follow, Opens forms ∧ flowRule.Objects forms follow ∧
    ∀ depth next, Outline.Begins (FlowLine.text style) (FlowLine.forms words) follow depth
      (.line (style.outline r).1 (style.outline r).2 next) forms

variable {style words} {r : κ}

theorem Accepted.readable (h : style.Accepted words r) (depth : Nat) :
    LineReadsAs ((style.outline r).1.text style) ((style.outline r).1.forms words) ∧
      (style.outline r).2.Readable (FlowLine.text style) (FlowLine.forms words) depth := by
  obtain ⟨hhead, hbelow⟩ := List.forall_mem_cons.mp h.lines
  refine ⟨hhead, Outline.readable_ofList fun item hitem => ?_⟩
  obtain ⟨l, hl, rfl⟩ := List.mem_map.mp hitem
  exact .line (hbelow l hl) (.nil _) (.nil _)

end RuleStyle

/-- Unless all elements of a list have a property there is a first one that has not. -/
theorem exists_first {P : κ → Prop} {xs : List κ} (h : ¬ ∀ x ∈ xs, P x) :
    ∃ before x after, xs = before ++ x :: after ∧ (∀ y ∈ before, P y) ∧ ¬ P x := by
  induction xs with
  | nil => exact absurd (List.forall_mem_nil P) h
  | cons x xs ih =>
    by_cases hx : P x
    · obtain ⟨before, y, after, rfl, hbefore, hy⟩ :=
        ih fun hxs => h (List.forall_mem_cons.mpr ⟨hx, hxs⟩)
      exact ⟨x :: before, y, after, rfl, List.forall_mem_cons.mpr ⟨hx, hbefore⟩, hy⟩
    · exact ⟨[], x, xs, rfl, List.forall_mem_nil P, hx⟩

variable {style : RuleStyle κ ι} {words : ι → List TokenForm}

theorem opens_flowLine (hopens : ∀ l, Opens (words l)) (l : FlowLine ι) :
    Opens (l.forms words) := by
  cases l with
  | header form name => exact ⟨_, _, rfl, TokenForm.onLine_ofKind rfl⟩
  | inner l => exact hopens l

namespace RuleFlow

variable {f : RuleFlow κ}

theorem readable (h : ∀ r ∈ f.rules, style.Accepted words r) (depth : Nat) :
    (f.outline style).2.Readable (FlowLine.text style) (FlowLine.forms words) depth := by
  refine Outline.readable_ofList fun item hitem => ?_
  obtain ⟨r, hr, rfl⟩ := List.mem_map.mp hitem
  obtain ⟨hhead, hbody⟩ := (h r hr).readable (depth + 1)
  exact .line hhead hbody (.nil _)

theorem accepts (hopens : ∀ l, Opens (words l)) (h : ∀ r ∈ f.rules, style.Accepted words r) :
    flowSection.Accepts (Outline.itemForms (FlowLine.forms words) (f.outline style)) (· ≠ .indent)
      (·.erased = f.tree style) :=
  accepts_flowOf rfl (opens_flowLine hopens) fun r hr => (h r hr).accepts

/-- A flow with a rule that is not accepted is objected to where the first of them stands. -/
theorem objects {P : κ → Prop} (hopens : ∀ l, Opens (words l))
    (hgood : ∀ r, P r → style.Accepted words r) (hbad : ∀ r, ¬ P r → style.Objected words r)
    (hex : ¬ ∀ r ∈ f.rules, P r) :
    ∃ forms follow, flowSection.Objects (headerForms .flow f.name ++ forms) follow ∧
      ∀ depth next, Outline.Begins (FlowLine.text style) (FlowLine.forms words) follow depth
        (.line (f.outline style).1 (f.outline style).2 next)
        (headerForms .flow f.name ++ forms) := by
  obtain ⟨before, r, after, hrules, hbefore, hr⟩ := exists_first hex
  obtain ⟨forms, follow, hforms, hobjects, hbegins⟩ := hbad r hr
  have hbody : (f.outline style).2 =
      .ofList (before.map style.outline ++ style.outline r :: after.map style.outline) := by
    rw [outline, hrules, List.map_append, List.map_cons]
  have haccepts : ∀ item ∈ before.map style.outline,
      flowRule.Accepts (Outline.itemForms (FlowLine.forms words) item) (· ≠ .indent) Anything := by
    intro item hitem
    obtain ⟨r', hr', rfl⟩ := List.mem_map.mp hitem
    exact (hgood r' (hbefore r' hr')).accepts.imp fun _ _ => trivial
  refine ⟨_, follow, objects_flowOf (opens_flowLine hopens) hforms haccepts hobjects,
    fun depth next => ?_⟩
  rw [hbody]
  refine .inside (lineReadsAs_header .flow (some f.name)) (.ofList (fun item hitem => ?_)
    (hbegins _ _))
  obtain ⟨r', hr', rfl⟩ := List.mem_map.mp hitem
  exact (hgood r' (hbefore r' hr')).readable _

end RuleFlow

namespace FlowAgent

variable {a : FlowAgent κ} (hopens : ∀ l, Opens (words l))

include hopens

/-- An agent is read as it was written if its rules are accepted. -/
theorem readAs (h : ∀ f ∈ a.flows, ∀ r ∈ f.rules, style.Accepted words r)
    (options : ParseOptions) :
    (Document.ofSource (a.print style) options).ReadAs (a.tree style) := by
  have hopen := opens_flowLine hopens
  have hhead : FlowLine.forms words (.header .agent a.name) = headerForms .agent a.name := rfl
  have hbody : (LineParser.whole agentPart).Collects .empty
      ((Outline.ofList (a.flows.map (RuleFlow.outline style) ++ [])).forms (FlowLine.forms words))
      fun p => (Agent.ofParts a.name.text p default).erased = a.agent style := by
    refine collects_flows hopen (fun _ _ hk => heads_ofKind.mp hk)
      (fun f hf => f.accepts hopens (h f hf)) fun flows hflows => LineParser.collects_nil ?_
    simp only [Agent.ofParts, Agent.erased, AgentParts.empty, agent, List.nil_append, hflows]
    rfl
  rw [List.append_nil] at hbody
  have hread : (a.outline style).Readable (FlowLine.text style) (FlowLine.forms words) 0 := by
    refine .line (lineReadsAs_header _ _) (Outline.readable_ofList fun item hitem => ?_) (.nil _)
    obtain ⟨f, hf, rfl⟩ := List.mem_map.mp hitem
    exact .line (lineReadsAs_header _ _) (f.readable (h f hf) _) (.nil _)
  exact Document.readAs_outline hread
    (FileParts.collects_agent hhead hopen (accepts_agentOf hhead hbody) rfl rfl) options

variable {P : κ → Prop} (hgood : ∀ r, P r → style.Accepted words r)
  (hbad : ∀ r, ¬ P r → style.Objected words r)

include hgood hbad

/-- There are errors if not all rules are accepted. -/
theorem parseErrors_ne_nil (hex : ¬ ∀ f ∈ a.flows, ∀ r ∈ f.rules, P r) (options : ParseOptions) :
    (Document.ofSource (a.print style) options).parseErrors ≠ [] := by
  obtain ⟨before, f, after, hflows, hbefore, hf⟩ := exists_first hex
  obtain ⟨forms, follow, hobjects, hbegins⟩ := f.objects hopens hgood hbad hf
  -- The flow is come to only because all before it are accepted.
  have hflow : ∀ f' ∈ before, ∀ r ∈ f'.rules, style.Accepted words r :=
    fun f' hf' r hr => hgood r (hbefore f' hf' r hr)
  have hbody : (Outline.ofList (before.map (RuleFlow.outline style) ++
      f.outline style :: after.map (RuleFlow.outline style))).Begins (FlowLine.text style)
      (FlowLine.forms words) follow 1
      ((Outline.ofList (before.map (RuleFlow.outline style))).forms (FlowLine.forms words) ++
        (headerForms .flow f.name ++ forms)) := by
    refine .ofList (fun item hitem => ?_) (hbegins _ _)
    obtain ⟨f', hf', rfl⟩ := List.mem_map.mp hitem
    exact ⟨lineReadsAs_header _ _, f'.readable (hflow f' hf') _⟩
  have houtline : (a.outline style).Begins (FlowLine.text style) (FlowLine.forms words) follow 0
      (headerForms .agent a.name ++ .ofKind .newline :: .ofKind .indent ::
        ((Outline.ofList (before.map (RuleFlow.outline style))).forms (FlowLine.forms words) ++
          (headerForms .flow f.name ++ forms))) := by
    rw [outline, hflows, List.map_append, List.map_cons]
    exact .inside (lineReadsAs_header _ _) hbody
  have hopen : Opens (headerForms .flow f.name ++ forms) :=
    ⟨_, _, rfl, TokenForm.onLine_ofKind rfl⟩
  refine Document.parseErrors_of_objects houtline ⟨_, _, rfl, TokenForm.onLine_ofKind rfl⟩
    (fun _ hk => heads_ofKind.mp hk) (objects_agentOf (opens_flowLine hopens) hopen
      (fun item hitem k hk => ?_) (fun item hitem => ?_) (fun _ hk => heads_ofKind.mp hk) hobjects)
    options
  · obtain ⟨f', -, rfl⟩ := List.mem_map.mp hitem
    exact heads_ofKind.mp hk
  · obtain ⟨f', hf', rfl⟩ := List.mem_map.mp hitem
    exact (f'.accepts hopens (hflow f' hf')).imp fun _ _ => trivial

/-- An agent is read as it was written exactly if all of its rules are accepted, where the others
are objected to. -/
theorem readAs_iff (options : ParseOptions) :
    (Document.ofSource (a.print style) options).ReadAs (a.tree style) ↔
      ∀ f ∈ a.flows, ∀ r ∈ f.rules, P r := by
  constructor
  · intro hread
    by_contra hex
    exact parseErrors_ne_nil hopens hgood hbad hex options hread.parseErrors
  · exact fun hall => readAs hopens (fun f hf r hr => hgood r (hall f hf r hr)) options

end FlowAgent

end AgentScript
