import AgentScript.Proofs.Parsing.LinePlacement
import AgentScript.Proofs.Parsing.MessagePlacement

/-!
# Where the nodes of flows and agents are placed

Operands and clauses stand on the line of their rule, when clauses in the block under it.
The range of a rule is closed after that block.

The sections of an agent fill the rows of its parts in the order of the text. A section that
has its place taken already leaves no node behind.
-/
namespace AgentScript

def AgentParts.rows (p : AgentParts) : List (List Node) :=
  [p.config.toList.map SettingsSection.node, p.defaults.toList.map SettingsSection.node,
    p.flows.map Flow.node, p.messages.toList.map MessageSection.node]

namespace Parser

variable {α β : Type} {limit : Nat} {K : ParserState → Prop}

theorem places_parameter : Places limit K (fun e => [e.node]) parameter := by
  apply (places_keyed (K := fun _ => True) (passesText_takeName _) _ _ places_inlineValue).restrict
  · exact fun _ _ => trivial
  · exact fun _ _ _ _ _ => trivial
  · exact fun _ _ _ _ _ => trivial

theorem places_optionalWith :
    Places limit K (fun w => w.toList.map WithClause.node) optionalWith := by
  apply places_check_bind
  · apply places_of_advance
    · intro s hs
      rw [hs.1]
      rfl
    · intro t
      apply Builds.row (places_separated .comma places_parameter)
      intro parameters
      apply Builds.span [parameters.map Keyed.node] (by simp)
      intro l s u w heq
      cases heq
      rfl
  · exact places_pure rfl

theorem node_of_ofToken? {t : Token} {o : Operand} (h : Operand.ofToken? t = some o) :
    o.node = ⟨some t.location, []⟩ := by
  unfold Operand.ofToken? at h
  split at h
  · cases h
    rfl
  · cases h
    rfl
  · split_ifs at h
    cases h
    rfl

theorem places_operand : Places limit K (fun o => [o.node]) operand := by
  intro s t o hs _ heq
  cases ho : Operand.ofToken? s.current with
  | none =>
    have heq' : operand s = (unexpected "flow operand" : Parser Operand) s := by
      rw [operand, bind_of_ok _ (rfl : peek s = .ok s.current s), ho]
    rw [heq'] at heq
    cases heq
  | some o' =>
    have heq' : operand s = .ok o' s.advance := by
      rw [operand, bind_of_ok _ (rfl : peek s = .ok s.current s), ho]
      rfl
    rw [heq'] at heq
    cases heq
    change Row limit s.current.start s.advance [o.node]
    rw [node_of_ofToken? ho]
    exact Row.token hs (isStructural_of_ofToken? ho)

theorem passesText_operandChain : PassesText K operandChain := by
  have hfirst : PassesText K operand := Places.passesText fun _ => places_operand
  exact (hfirst.bind (f := fun a => followers .arrow operand >>= fun rest =>
    pure (a :: rest))).bind

theorem places_operandChain : Places limit K (fun os => os.map Operand.node) operandChain := by
  apply (places_separated .arrow places_operand).keep
  intro operands s b t heq
  split_ifs at heq
  · exact nomatch heq
  · cases heq
    exact ⟨rfl, rfl⟩

theorem node_of_buildWhen {condition : Value} {operands : List Operand}
    {withClause : Option WithClause} {l : Location} {w : WhenClause}
    (h : WhenClause.build condition operands withClause l = .ok w) :
    w.node = ⟨some l, [[condition.node], operands.map Operand.node,
      withClause.toList.map WithClause.node]⟩ := by
  unfold WhenClause.build at h
  split_ifs at h
  cases h
  rfl

theorem node_of_buildRule {operands : List Operand} {withClause : Option WithClause}
    {whenClauses : List WhenClause} {l : Location} {r : FlowRule}
    (h : FlowRule.build operands withClause whenClauses l = .ok r) :
    r.node = ⟨some l, [operands.map Operand.node, withClause.toList.map WithClause.node,
      whenClauses.map WhenClause.node]⟩ := by
  unfold FlowRule.build at h
  split_ifs at h
  cases h
  rfl

theorem places_whenClause : Places limit K (fun w => [w.node]) whenClause := by
  apply places_of_expect rfl
  intro t
  apply Builds.row places_inlineValue
  intro condition
  apply Builds.row (.skip fun n => places_eachAfter .arrow places_operand n)
  intro operands
  apply Builds.row places_optionalWith
  intro withClause
  apply Builds.span [[condition.node], operands.map Operand.node,
    withClause.toList.map WithClause.node]
  · simp
  · intro l s u w heq
    obtain ⟨clause, s', hclause, heq⟩ := bind_eq_ok.mp heq
    obtain ⟨_, s'', -, heq⟩ := bind_eq_ok.mp heq
    cases heq
    rw [node_of_buildWhen (ofNode_eq_ok.mp hclause).1]

theorem places_flowRule : Places limit K (fun r => [r.node]) flowRule := by
  apply places_of_peek
  intro t
  apply Builds.textRow passesText_operandChain places_operandChain
  intro operands
  apply Builds.skip
  intro header
  apply Builds.row places_optionalWith
  intro withClause
  apply Builds.fields ((extends_block (LineParser.gathers_item places_whenClause) []).placesRows
    (by simp))
  intro whenClauses
  apply Builds.span [operands.map Operand.node, withClause.toList.map WithClause.node,
    whenClauses.map WhenClause.node]
  · simp
  · intro l s u r heq
    rw [node_of_buildRule (ofNode_eq_ok.mp heq).1]

theorem places_flowSection :
    Places limit (fun s => s.kind.isStructural = false) (fun f => [f.node]) flowSection := by
  apply places_of_advance (fun _ h => h)
  intro t
  apply Builds.skip
  intro name
  apply Builds.skip
  intro _
  apply Builds.fields ((extends_block (LineParser.gathers_item places_flowRule) []).placesRows
    (by simp))
  intro rules
  apply Builds.span [rules.map FlowRule.node] (by simp)
  intro l s u f heq
  cases heq
  rfl

theorem places_importLine :
    Places limit (fun s => s.kind.isStructural = false) (fun i => [i.node]) importLine := by
  apply places_of_advance (fun _ h => h)
  intro t
  apply Builds.skip
  intro path
  apply Builds.skip
  intro localName
  apply Builds.skip
  intro source
  apply Builds.span [] (by simp)
  intro l s u i h
  obtain ⟨_, _, -, h⟩ := bind_eq_ok.mp h
  cases h
  rfl

theorem passesText_inlineValue : PassesText K inlineValue :=
  Places.passesText fun _ => places_inlineValue

theorem places_mappedRow : Places limit K (fun r => [r.node]) mappedRow := by
  apply places_of_peek
  intro t
  apply Builds.textRow passesText_inlineValue.bind (places_separated .comma places_inlineValue)
  intro values
  apply Builds.span [values.map Value.node] (by simp)
  intro l s u r h
  obtain ⟨_, _, -, h⟩ := bind_eq_ok.mp h
  cases h
  rfl

theorem places_mappedType : Places limit K (fun m => [m.node]) mappedType := by
  apply places_of_peek
  intro t
  apply Builds.text (passesText_takeName _)
  intro name
  apply Builds.skip
  intro _
  apply Builds.skip
  intro _
  apply Builds.skip
  intro _
  apply Builds.skip
  intro schema
  apply Builds.skip
  intro _
  apply Builds.skip
  intro _
  apply Builds.fields ((extends_block (LineParser.gathers_item places_mappedRow) []).placesRows
    (by simp))
  intro rows
  apply Builds.span [rows.map MappedRow.node] (by simp)
  intro l s u m h
  cases h
  rfl

theorem gathers_settingsLine :
    settingsLine.Gathers limit (pairRows Keyed.node MappedType.node) := by
  intro lo parts s hs hhalted hlo hrows
  unfold settingsLine
  split_ifs
  · refine LineParser.gathers_whole ?_ hs hhalted hlo hrows
    rintro ⟨attributes, mappedTypes⟩
    exact extends_second places_mappedType attributes mappedTypes
  · refine LineParser.gathers_whole ?_ hs hhalted hlo hrows
    rintro ⟨attributes, mappedTypes⟩
    exact extends_first places_attributeEntry attributes mappedTypes

theorem places_settingsSection :
    Places limit (fun s => s.kind.isStructural = false) (fun x => [x.node]) settingsSection := by
  apply places_of_advance (fun _ h => h)
  intro t
  apply Builds.skip
  intro name
  apply Builds.skip
  intro _
  apply Builds.fields
    ((extends_block gathers_settingsLine ([], [])).placesRows (by simp [pairRows]))
  rintro ⟨attributes, mappedTypes⟩
  apply Builds.span [attributes.map Keyed.node, mappedTypes.map MappedType.node]
    (by simp [pairRows])
  intro l s u x h
  cases h
  rfl

/-- A place is left as it is or filled while it is empty. -/
theorem fillOnce_eq_ok {old place : Option α} {new : α} {cause : ParseCause} {location : Location}
    {s t : ParserState} (h : fillOnce old new cause location s = .ok place t) :
    place = old ∨ old = none ∧ place = some new := by
  cases old with
  | none =>
    cases h
    exact .inr ⟨rfl, rfl⟩
  | some a =>
    obtain ⟨_, _, -, h⟩ := bind_eq_ok.mp h
    cases h
    exact .inl rfl

/-- A section fills the row of its place. -/
theorem extends_fillOnce {p : AgentParts} {q : Parser α} [Proceeds q] {node : α → Node}
    (hq : Places limit K (fun a => [node a]) q) {old : Option α} {cause : ParseCause}
    {location : Location} {fill : Option α → AgentParts}
    (hrows : ∀ place, ∀ row ∈ (fill place).rows, row ∈ p.rows ∨ row = place.toList.map node)
    (hold : old.toList.map node ∈ p.rows) :
    Extends limit K AgentParts.rows p
      (q >>= fun a => fillOnce old a cause location >>= fun place => pure (fill place)) := by
  intro lo s u parts hs hk hlo hp heq
  obtain ⟨a, t, ha, heq⟩ := bind_eq_ok.mp heq
  obtain ⟨place, u', hplace, heq⟩ := bind_eq_ok.mp heq
  cases heq
  have hq' := leads_of_ok _ ha
  have hfill := leads_of_ok _ hplace
  have hp' := (hp.leads hs hq').leads (hs.leads hq') hfill
  intro row hrow
  rcases hrows place row hrow with hmem | rfl
  · exact hp' row hmem
  · rcases fillOnce_eq_ok hplace with rfl | ⟨rfl, rfl⟩
    · exact hp' _ hold
    · exact ((hq hs hk ha).from_before hlo).leads (hs.leads hq') hfill

theorem rows_of_agentAttribute {p parts : AgentParts} {s t : ParserState}
    (h : agentAttribute p s = .ok parts t) : parts.rows = p.rows := by
  obtain ⟨key, s₁, -, h⟩ := bind_eq_ok.mp h
  split_ifs at h
  · exact nomatch h
  all_goals
    obtain ⟨_, s₂, -, h⟩ := bind_eq_ok.mp h
    obtain ⟨_, s₃, -, h⟩ := bind_eq_ok.mp h
    obtain ⟨text, s₄, -, h⟩ := bind_eq_ok.mp h
    obtain ⟨_, s₅, -, h⟩ := bind_eq_ok.mp h
    obtain ⟨place, s₆, -, h⟩ := bind_eq_ok.mp h
    cases h
    rfl

theorem extends_agentPart (p : AgentParts) :
    Extends limit K AgentParts.rows p (agentPart p) := by
  apply extends_peek_bind
  intro t
  have hword (hk : t.kind.isStructural = false) (s : ParserState) (hs : s.current = t ∧ K s) :
      s.kind.isStructural = false := by rw [ParserState.kind, hs.1, hk]
  split
  case h_1 hk =>
    apply extends_fillOnce (places_settingsSection.restrict (hword (by rw [hk]; rfl)))
    · simp [AgentParts.rows]
    · simp [AgentParts.rows]
  case h_2 hk =>
    apply extends_fillOnce (places_settingsSection.restrict (hword (by rw [hk]; rfl)))
    · simp [AgentParts.rows]
    · simp [AgentParts.rows]
  case h_3 hk =>
    apply extends_append (places_flowSection.restrict (hword (by rw [hk]; rfl)))
    simp [AgentParts.rows]
  case h_4 hk =>
    apply extends_fillOnce (places_messageSection.restrict (hword (by rw [hk]; rfl)))
    · simp [AgentParts.rows]
    · simp [AgentParts.rows]
  case h_5 => exact fun _ _ _ _ _ _ _ _ h => nomatch h
  case h_6 =>
    apply extends_skip
    intro c
    split_ifs
    · intro lo s u parts hs _ _ hp heq
      rw [rows_of_agentAttribute heq]
      exact hp.leads hs (leads_of_ok _ heq)
    · exact fun _ _ _ _ _ _ _ _ h => nomatch h

theorem places_agent :
    Places limit (fun s => s.kind.isStructural = false) (fun a => [a.node]) agent := by
  apply places_of_advance (fun _ h => h)
  intro t
  apply Builds.skip
  intro name
  apply Builds.skip
  intro _
  apply Builds.fields ((extends_block (LineParser.gathers_whole fun p => extends_agentPart p)
    .empty).placesRows (by simp [AgentParts.rows, AgentParts.empty]))
  intro parts
  apply Builds.span parts.rows
  · exact fun row hrow => .inl (List.mem_append_left _ hrow)
  · intro l s u a h
    cases h
    rfl

end Parser

end AgentScript
