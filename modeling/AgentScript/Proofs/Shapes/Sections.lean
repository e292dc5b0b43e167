import AgentScript.Document
import AgentScript.Proofs.Shapes.Values

/-!
# The form of trees

Rules and messages, sections, agents and files are well-formed, since their parsers make them of
well-formed parts. The parts a section has gathered stay well-formed whatever lines fail. Every rule
of a tree has a destination, so its steps lead along all of its operands.
-/
namespace AgentScript

namespace Parser

theorem yields_operand : Yields (fun o => o.location.isSome) operand := by
  refine .skip fun t => ?_
  split
  · next o ho =>
    refine .skip fun _ => .pure ?_
    unfold Operand.ofToken? at ho
    split at ho
    · cases ho
      rfl
    · cases ho
      rfl
    · split_ifs at ho
      cases ho
      rfl
  · exact yields_unexpected _

theorem yields_optionalWith : Yields (fun w => ∀ c ∈ w, c.WellFormed) optionalWith := by
  refine .skip fun _ => .ite (.skip fun _ => ?_) (.pure forall_mem_none)
  refine ((yields_inlineValue.keyed _ _).separated .comma).bind fun parameters hparameters => ?_
  refine .skip fun l => .pure fun c hc => ?_
  cases hc
  exact ⟨rfl, hparameters.1, hparameters.2⟩

theorem yields_whenClause : Yields WhenClause.WellFormed whenClause := by
  refine .skip fun _ => yields_inlineValue.bind fun condition hcondition => ?_
  refine (yields_operand.followers .arrow).bind fun operands hoperands => ?_
  refine yields_optionalWith.bind fun withClause hwith => .skip fun l => ?_
  refine (yields_ofNode (fun w hw => ?_) l).bind fun w hw => .skip fun _ => .pure hw
  unfold WhenClause.build at hw
  split_ifs at hw with hempty
  cases hw
  exact ⟨rfl, hcondition, by simpa using hempty, hoperands, hwith⟩

theorem yields_operandChain :
    Yields (fun l => ∀ o ∈ l, o.location.isSome) operandChain :=
  (yields_operand.separated .arrow).bind fun _ h => .ite (yields_unexpected _) (.pure h.2)

theorem yields_flowRule : Yields FlowRule.WellFormed flowRule := by
  refine .skip fun _ => yields_operandChain.bind fun operands hoperands => .skip fun _ => ?_
  refine yields_optionalWith.bind fun withClause hwith => ?_
  refine yields_whenClause.itemBlock.bind fun whenClauses hwhen => .skip fun l => ?_
  refine yields_ofNode (fun r hr => ?_) _
  have htwo := FlowRule.two_le_of_build hr
  unfold FlowRule.build at hr
  split_ifs at hr
  cases hr
  exact ⟨rfl, htwo, hoperands, hwith, hwhen⟩

theorem yields_flowSection : Yields Flow.WellFormed flowSection :=
  .skip fun _ => .skip fun _ => .skip fun _ => yields_flowRule.itemBlock.bind fun _ hrules =>
    .skip fun _ => .pure ⟨rfl, hrules⟩

theorem yields_time (what : String) : Yields (fun t => t.location.isSome) (time what) :=
  .skip fun _ => .ite yields_typeTag (yields_unexpected _)

theorem yields_suggestionAction (form : SuggestionForm) :
    Yields SuggestionAction.WellFormed (suggestionAction form) := by
  cases form with
  | reply => exact .skip fun _ => .pure (.reply _)
  | dial => exact .skip fun _ => .pure (.dial _)
  | openUrl => exact .skip fun _ => .skip fun _ => .skip fun _ => .pure (.openUrl _ _ _)
  | shareLocation => exact .pure .shareLocation
  | viewLocation => exact .skip fun _ => .pure (.viewLocation _)
  | saveEvent =>
    exact .skip fun _ => (yields_time _).bind fun _ hstart => (yields_time _).bind fun _ hstop =>
      .skip fun _ => .pure (.saveEvent hstart hstop _ _)

theorem yields_suggestion : Yields Suggestion.WellFormed suggestion := by
  refine .skip fun k => ?_
  split
  · refine .skip fun _ => .skip fun _ => (yields_suggestionAction _).bind fun _ haction => ?_
    exact .skip fun l => .skip fun _ => .pure ⟨rfl, haction⟩
  · exact yields_failHere _
  · exact yields_unexpected _

theorem keeps_cardLine : LineParser.Keeps CardParts.WellFormed cardLine := by
  refine .choose (LineParser.Keeps.thenFinish (LineParser.keeps_whole fun c hc => ?_))
    (LineParser.keeps_whole fun c hc => ?_) _
  · exact .skip fun _ => .skip fun _ => .skip fun _ => .pure hc
  · exact yields_suggestion.map fun _ hx => forall_mem_concat hc hx

theorem yields_applyOption {α : Type} {P : α → Prop} (place : OptionPlace)
    {apply : α → String → Option α} (h : ∀ a name b, P a → apply a name = some b → P b) {a : α}
    (ha : P a) (t : Token) : Yields P (applyOption place apply a t) := by
  unfold applyOption
  split
  · next hb => exact .pure (h a _ _ ha hb)
  · exact .skip fun _ => .pure ha

theorem suggestions_withOption {c d : CardParts} {name : String} (h : c.withOption? name = some d) :
    d.suggestions = c.suggestions := by
  unfold CardParts.withOption? at h
  split at h <;> cases h <;> rfl

theorem yields_cardOptions {c : CardParts} (hc : c.WellFormed) (fuel : Nat) :
    Yields CardParts.WellFormed (cardOptions fuel c) := by
  induction fuel generalizing c with
  | zero => exact .pure hc
  | succ fuel ih =>
    refine .skip fun k => ?_
    split
    · refine .skip fun t => (yields_applyOption .richCard (fun a name b ha hb => ?_) hc t).bind
        fun _ hc => ih hc
      unfold CardParts.WellFormed
      exact suggestions_withOption hb ▸ ha
    · exact .skip fun _ => ih hc
    · exact .skip fun _ => ih hc
    · exact .pure hc

theorem yields_richCard (traffic : Option TrafficType) :
    Yields (fun c : RichCard => c.header.WellFormed ∧ c.header.traffic = traffic)
      (richCard traffic) := by
  have hempty : CardParts.empty.WellFormed := List.forall_mem_nil _
  refine .skip fun _ => .skip fun _ => .skip fun _ => .skip fun _ => ?_
  refine (yields_cardOptions hempty _).bind fun parts hparts => ?_
  refine (yields_block keeps_cardLine hparts).bind fun parts hparts => .skip fun l => .pure ?_
  exact ⟨⟨rfl, hparts⟩, rfl⟩

theorem keeps_carouselLine : LineParser.Keeps
    (EachHas (fun c : RichCard => c.header.WellFormed ∧ c.header.traffic = none)
      Suggestion.WellFormed) carouselLine := by
  refine LineParser.keeps_whole fun parts hparts => .skip fun _ => .ite ?_ ?_
  · exact (yields_richCard none).map fun _ hc => hparts.addFirst hc
  · exact yields_suggestion.map fun _ hx => hparts.addSecond hx

theorem yields_carousel (traffic : Option TrafficType) :
    Yields Message.WellFormed (carousel traffic) := by
  refine .skip fun _ => .skip fun _ => .skip fun _ => .skip fun _ => ?_
  refine (yields_block keeps_carouselLine eachHas_nil).bind fun parts hparts => .skip fun l => ?_
  exact .pure (.carousel ⟨rfl, hparts.second⟩ _ (fun c hc => (hparts.first c hc).1)
    fun c hc => (hparts.first c hc).2)

theorem yields_attributeEntry : Yields (Keyed.Formed Value.WellFormed) attributeEntry :=
  yields_value.keyedLine _ _

theorem keeps_definitionLine : LineParser.Keeps
    (EachHas (Keyed.Formed Value.WellFormed) Suggestion.WellFormed) definitionLine := by
  refine .choose (LineParser.keeps_whole fun parts hparts => ?_) (.choose
    (LineParser.keeps_whole fun parts hparts => ?_)
    (LineParser.keeps_whole fun parts hparts => ?_) _) _
  · exact yields_suggestion.map fun _ hx => hparts.addSecond hx
  · exact .skip fun _ => .skip fun _ =>
      (yields_block (LineParser.keeps_item yields_suggestion) hparts.second).map fun _ hs =>
        ⟨hparts.first, hs⟩
  · exact yields_attributeEntry.map fun _ ha => hparts.addFirst ha

theorem yields_messageDefinition (traffic : Option TrafficType) :
    Yields Message.WellFormed (messageDefinition traffic) := by
  refine .skip fun _ => .skip fun _ => .skip fun _ => ?_
  refine (yields_block keeps_definitionLine eachHas_nil).bind fun parts hparts => .skip fun l => ?_
  exact .pure (.definition rfl hparts.first hparts.second)

theorem yields_shortForm (traffic : Option TrafficType) (form : MessageForm) :
    Yields Message.WellFormed (shortForm traffic form) := by
  cases form with
  | text =>
    exact .skip fun _ => .skip fun _ => .skip fun _ => yields_suggestion.itemBlock.bind fun _ hs =>
      .skip fun _ => .pure (.text ⟨rfl, hs⟩ _)
  | richCard => exact (yields_richCard traffic).map fun _ hc => .richCard hc.1
  | carousel => exact yields_carousel traffic
  | rbmFile =>
    exact .skip fun _ => .skip fun _ => .skip fun _ => .skip fun _ =>
      yields_suggestion.itemBlock.bind fun _ hs => .skip fun _ => .pure (.rbmFile ⟨rfl, hs⟩ _ _)
  | file =>
    exact .skip fun _ => .skip fun _ => .skip fun _ => yields_suggestion.itemBlock.bind fun _ hs =>
      .skip fun _ => .pure (.file ⟨rfl, hs⟩ _)

theorem yields_message : Yields Message.WellFormed message := by
  refine .skip fun traffic => .skip fun k => ?_
  split
  · exact yields_shortForm traffic _
  · exact .skip fun _ => yields_messageDefinition traffic
  · exact yields_failHere _
  · refine .skip fun _ => .ite (yields_messageDefinition traffic) (.ite ?_ ?_)
    · exact yields_failHere _
    · exact yields_unexpected _

theorem yields_messageSection : Yields MessageSection.WellFormed messageSection :=
  .skip fun _ => .skip fun _ => .skip fun _ => yields_message.itemBlock.bind fun _ hm =>
    .skip fun _ => .pure ⟨rfl, hm⟩

theorem yields_importLine : Yields Import.WellFormed importLine := by
  refine .skip fun _ => Yields.bind (P := fun l => l ≠ []) ?_ fun path hpath => ?_
  · exact .skip fun _ => .skip fun _ => .pure (List.cons_ne_nil _ _)
  · exact .skip fun _ => .skip fun _ => .skip fun l => .skip fun _ => .pure ⟨rfl, hpath⟩

theorem yields_mappedRow : Yields MappedRow.WellFormed mappedRow :=
  .skip fun _ => (yields_inlineValue.separated .comma).bind fun _ hv =>
    .skip fun _ => .skip fun _ => .pure ⟨rfl, hv.1, hv.2⟩

theorem yields_mappedType : Yields MappedType.WellFormed mappedType := by
  refine .skip fun _ => .skip fun _ => .skip fun _ => .skip fun _ => .skip fun _ => ?_
  refine Yields.bind (P := fun l => l ≠ []) ?_ fun schema hschema => ?_
  · exact .skip fun _ => .skip fun _ => .pure (List.cons_ne_nil _ _)
  · exact .skip fun _ => .skip fun _ => yields_mappedRow.itemBlock.bind fun _ hrows =>
      .skip fun _ => .pure ⟨rfl, hschema, hrows⟩

theorem keeps_settingsLine : LineParser.Keeps
    (EachHas (Keyed.Formed Value.WellFormed) MappedType.WellFormed) settingsLine := by
  refine .choose (LineParser.keeps_whole fun parts hparts => ?_)
    (LineParser.keeps_whole fun parts hparts => ?_) _
  · exact yields_mappedType.map fun _ hm => hparts.addSecond hm
  · exact yields_attributeEntry.map fun _ ha => hparts.addFirst ha

theorem yields_settingsSection : Yields SettingsSection.WellFormed settingsSection := by
  refine .skip fun _ => .skip fun _ => .skip fun _ => ?_
  refine (yields_block keeps_settingsLine eachHas_nil).bind fun parts hparts => .skip fun l => ?_
  exact .pure ⟨rfl, hparts.first, hparts.second⟩

theorem yields_fillOnce {α : Type} {P : α → Prop} {old : Option α} (hold : ∀ a ∈ old, P a)
    {new : α} (hnew : P new) (cause : ParseCause) (l : Location) :
    Yields (fun o => ∀ a ∈ o, P a) (fillOnce old new cause l) := by
  unfold fillOnce
  split
  · exact .pure fun a ha => Option.some.inj ha ▸ hnew
  · exact .skip fun _ => .pure hold

theorem yields_agentAttribute {p : AgentParts} (hp : p.WellFormed) :
    Yields AgentParts.WellFormed (agentAttribute p) := by
  refine .skip fun t => .ite (yields_fail _ _) (.skip fun _ => .skip fun _ => .skip fun text => ?_)
  refine .skip fun _ => .ite (.skip fun _ => .pure ?_) (.skip fun _ => .pure ?_)
  · exact ⟨hp.config, hp.defaults, hp.flows, hp.messages⟩
  · exact ⟨hp.config, hp.defaults, hp.flows, hp.messages⟩

theorem yields_agentPart {p : AgentParts} (hp : p.WellFormed) :
    Yields AgentParts.WellFormed (agentPart p) := by
  refine .skip fun t => ?_
  split
  · exact yields_settingsSection.bind fun s hs => (yields_fillOnce hp.config hs _ _).map
      fun _ h => { hp with config := h }
  · exact yields_settingsSection.bind fun s hs => (yields_fillOnce hp.defaults hs _ _).map
      fun _ h => { hp with defaults := h }
  · exact yields_flowSection.map fun f hf => { hp with flows := forall_mem_concat hp.flows hf }
  · exact yields_messageSection.bind fun m hm => (yields_fillOnce hp.messages hm _ _).map
      fun _ h => { hp with messages := h }
  · exact yields_fail _ _
  · exact .skip fun _ => .ite (yields_agentAttribute hp) (yields_unexpected _)

theorem yields_agent : Yields Agent.WellFormed agent := by
  have hempty : AgentParts.empty.WellFormed :=
    ⟨forall_mem_none, forall_mem_none, List.forall_mem_nil _, forall_mem_none⟩
  refine .skip fun _ => .skip fun _ => .skip fun _ => ?_
  refine (yields_block (LineParser.keeps_whole fun _ => yields_agentPart) hempty).bind
    fun p hp => .skip fun l => .pure ?_
  exact ⟨rfl, hp.config, hp.defaults, hp.flows, hp.messages⟩

end Parser

namespace FileParts

structure WellFormed (f : FileParts) : Prop where
  imports : ∀ i ∈ f.imports, i.WellFormed
  agent : ∀ a ∈ f.agent, a.WellFormed

variable {f : FileParts}

theorem wellFormed_empty : FileParts.empty.WellFormed :=
  ⟨List.forall_mem_nil _, forall_mem_none⟩

theorem WellFormed.readImport (h : f.WellFormed) (s : ParserState) :
    (f.readImport s).1.WellFormed := by
  unfold FileParts.readImport
  dsimp only
  split
  · next i t heq => exact ⟨forall_mem_concat h.imports (Parser.yields_importLine heq), h.agent⟩
  · exact ⟨h.imports, h.agent⟩

theorem WellFormed.readAgent (h : f.WellFormed) (s : ParserState) :
    (f.readAgent s).1.WellFormed := by
  unfold FileParts.readAgent
  dsimp only
  split
  · next a t heq =>
    split
    · exact ⟨h.imports, fun b hb => Option.some.inj hb ▸ Parser.yields_agent heq⟩
    · exact ⟨h.imports, h.agent⟩
  · exact ⟨h.imports, h.agent⟩

theorem WellFormed.readItem (h : f.WellFormed) (s : ParserState) : (f.readItem s).1.WellFormed := by
  unfold FileParts.readItem
  split
  · exact h
  · exact h.readImport s
  · exact h.readAgent s
  · exact h
  · exact h

theorem WellFormed.readItems (h : f.WellFormed) (fuel : Nat) (s : ParserState) :
    (f.readItems fuel s).1.WellFormed := by
  induction fuel generalizing f s with
  | zero => exact h
  | succ fuel ih =>
    unfold FileParts.readItems
    split_ifs
    · exact h
    · exact ih (h.readItem s) _

end FileParts

theorem ParsedFile.wellFormed_read (s : ParserState) : ∀ tree ∈ (read s).1, tree.WellFormed := by
  have hparts := FileParts.wellFormed_empty.readItems s.remaining s
  unfold read
  dsimp only
  generalize FileParts.empty.readItems s.remaining s = read at hparts
  by_cases hr : read.1.recognized = true
  · rw [if_pos hr]
    intro tree htree
    obtain rfl := Option.some.inj htree
    exact ⟨rfl, hparts.imports, hparts.agent⟩
  · rw [if_neg hr]
    exact forall_mem_none

/-- Whatever the tokens are and wherever a parse of them stops, the tree it leaves is
well-formed. -/
theorem ParsedFile.tree_wellFormed (tokens : List Token) (options : ParseOptions) :
    ∀ tree ∈ (ofTokens tokens options).tree, tree.WellFormed :=
  wellFormed_read _

theorem ParsedFile.tree_wellFormed_whenClause :
    ∃ tree ∈ (ofTokens (TokenizedText.ofSource
        "agent A:\n  flow F:\n    a -> b\n      when [x, y] -> c with k: 1\n  stray\n").tokens
        .standard).tree, tree.agent.isSome = true ∧ tree.WellFormed := by
  have hagent : (ofTokens (TokenizedText.ofSource
      "agent A:\n  flow F:\n    a -> b\n      when [x, y] -> c with k: 1\n  stray\n").tokens
      .standard).tree.any (·.agent.isSome) = true := by decide +kernel
  obtain ⟨tree, htree, hagent⟩ := (Option.any_eq_true _ _).mp hagent
  exact ⟨tree, htree, hagent, tree_wellFormed _ _ tree htree⟩

namespace FlowRule

section

variable (w : Option WithClause) (l : Option Location) (operands : List Operand)

/-- The steps are the pairs of neighbouring operands, and the place of a step tells whether it is
the last. -/
theorem stepsAlong_eq_mapIdx :
    stepsAlong w l operands = (operands.zip operands.tail).mapIdx fun i pair =>
      ⟨pair.1, pair.2, if i + 1 = operands.length - 1 then w else none, l⟩ := by
  fun_induction stepsAlong w l operands with
  | case1 | case2 | case3 => rfl
  | case4 a b rest hrest ih =>
    have hinner : ¬ 0 + 1 = (a :: b :: rest).length - 1 := by
      have := List.length_pos_iff.mpr hrest
      simp only [List.length_cons]
      omega
    rw [ih, List.tail_cons, List.tail_cons, List.zip_cons_cons, List.mapIdx_cons, if_neg hinner]
    simp only [List.length_cons, Nat.add_sub_cancel, Nat.add_right_cancel_iff]

theorem map_source_stepsAlong : (stepsAlong w l operands).map (·.source) = operands.dropLast := by
  fun_induction stepsAlong w l operands with
  | case1 | case2 | case3 => rfl
  | case4 a b rest _ ih => rw [List.map_cons, ih, List.dropLast_cons_cons]

theorem map_destination_stepsAlong :
    (stepsAlong w l operands).map (·.destination) = operands.tail := by
  fun_induction stepsAlong w l operands with
  | case1 | case2 | case3 => rfl
  | case4 a b rest _ ih => rw [List.map_cons, ih, List.tail_cons, List.tail_cons]

theorem isChain_stepsAlong :
    (stepsAlong w l operands).IsChain fun a b => a.destination = b.source := by
  fun_induction stepsAlong w l operands with
  | case1 | case2 => exact .nil
  | case3 => exact .singleton _
  | case4 a b rest hrest ih =>
    obtain ⟨c, rest, rfl⟩ := List.exists_cons_of_ne_nil hrest
    cases rest <;> exact .cons_cons rfl ih

end

/-- The steps of a rule are a chain along its operands, of which none is lost. -/
structure Chained (r : FlowRule) : Prop where
  nonempty : r.transitions ≠ []
  /-- The first step begins at the first operand. -/
  first : r.transitions.head?.map (·.source) = r.operands.head?
  /-- Every other step begins where the one before it ends. -/
  connected : r.transitions.IsChain fun a b => a.destination = b.source
  /-- Where the steps begin and where the last one ends are all the operands. -/
  operands : r.transitions.map (·.source) ++
    (r.transitions.getLast?.map (·.destination)).toList = r.operands
  /-- The last step carries the with clause of the rule, no other has one. -/
  withClause : ∀ i step, r.transitions[i]? = some step →
    step.withClause = if i + 1 = r.transitions.length then r.withClause else none

variable {r : FlowRule}

/-- A rule with a destination leads along all of its operands. -/
theorem chained (h : 2 ≤ r.operands.length) : r.Chained := by
  have hsource : r.transitions.map (·.source) = r.operands.dropLast := map_source_stepsAlong ..
  have hdestination : r.transitions.map (·.destination) = r.operands.tail :=
    map_destination_stepsAlong ..
  have hlength : r.transitions.length = r.operands.length - 1 := by
    rw [← List.length_map (·.source), hsource, List.length_dropLast]
  constructor
  case nonempty =>
    rw [← List.length_pos_iff]
    omega
  case first => rw [← List.head?_map, hsource, List.head?_dropLast, if_pos (show 1 < _ from h)]
  case connected => exact isChain_stepsAlong ..
  case operands =>
    have hne : r.operands ≠ [] := List.length_pos_iff.mp (by omega)
    rw [← List.getLast?_map, hsource, hdestination, List.getLast?_tail, if_neg (by omega),
      List.getLast?_eq_some_getLast hne]
    exact List.dropLast_concat_getLast hne
  case withClause =>
    intro i step hstep
    rw [transitions, stepsAlong_eq_mapIdx, List.getElem?_mapIdx, Option.map_eq_some_iff] at hstep
    obtain ⟨pair, -, rfl⟩ := hstep
    rw [hlength]

end FlowRule

/-- The steps of every rule in the tree of a source are a chain along the operands of the rule: the
first begins at the first operand, every other begins where the one before it ends, none of the
operands is lost, and the last step alone carries the with clause. -/
theorem Document.transitions_chained (source : String) (options : ParseOptions) :
    ∀ tree ∈ (ofSource source options).tree, ∀ agent ∈ tree.agent, ∀ flow ∈ agent.flows,
      ∀ rule ∈ flow.rules, rule.Chained := by
  intro tree htree agent hagent flow hflow rule hrule
  unfold ofSource ParsedFile.ofTokens at htree
  dsimp only at htree
  have hagent := (ParsedFile.wellFormed_read _ tree htree).agent agent hagent
  exact FlowRule.chained ((hagent.flows flow hflow).rules rule hrule).leads

/-- A rule of three operands, behind which a line breaks off. -/
theorem Document.transitions_chained_brokenLine :
    let source := "agent A:\n  flow F:\n    a -> b -> c with k: 1\n    d ->\n"
    ∃ tree ∈ (ofSource source .standard).tree, ∃ agent ∈ tree.agent, ∃ flow ∈ agent.flows,
      ∃ rule ∈ flow.rules, rule.withClause.isSome = true ∧ rule.transitions.length = 2 ∧
        rule.Chained := by
  intro source
  have hfound : (ofSource source .standard).tree.any (·.agent.any (·.flows.any (·.rules.any
      fun rule => rule.withClause.isSome && rule.transitions.length == 2))) = true := by
    decide +kernel
  obtain ⟨tree, htree, hfound⟩ := (Option.any_eq_true _ _).mp hfound
  obtain ⟨agent, hagent, hfound⟩ := (Option.any_eq_true _ _).mp hfound
  obtain ⟨flow, hflow, hfound⟩ := List.any_eq_true.mp hfound
  obtain ⟨rule, hrule, hfound⟩ := List.any_eq_true.mp hfound
  obtain ⟨hclause, hlength⟩ := Bool.and_eq_true_iff.mp hfound
  exact ⟨tree, htree, agent, hagent, flow, hflow, rule, hrule, hclause, by simpa using hlength,
    transitions_chained source .standard tree htree agent hagent flow hflow rule hrule⟩

end AgentScript
