import AgentScript.Proofs.Sentences.FlowWords
import AgentScript.Proofs.Writing.Scripts
import AgentScript.Proofs.Writing.WrittenFiles

/-!
# The trees of scripts

Every part of a script is accepted by the parser for it, with the part's tree as the answer
up to locations. So a script is read as it was written.
-/
namespace AgentScript

open ParserState Writing

namespace Script.Key

/-- The text of an attribute, where it has been read. -/
def text? (p : AgentParts) : Key → Option String
  | displayName => p.displayName
  | brandName => p.brandName

def fill (p : AgentParts) (text : String) : Key → AgentParts
  | displayName => { p with displayName := some text }
  | brandName => { p with brandName := some text }

end Script.Key

namespace Parser

variable {α β : Type}

open Script

theorem flat_word (text : String) : Flat [.word text] :=
  flat_cons.mpr ⟨TokenForm.onLine_word text, flat_nil⟩

theorem accepts_importLine (i : Script.Import) :
    importLine.Accepts ((Line.importOf i).forms ++ [.ofKind .newline]) (· ≠ .indent)
      (·.erased = i.tree) := by
  have hforms : (Line.importOf i).forms ++ [.ofKind .newline] =
      [TokenForm.ofKind (.keyword .importWord)] ++
        (([TokenForm.word i.first.text] ++
            i.more.flatMap fun r => TokenForm.ofKind .slash :: [.word r.text]) ++
          ((i.localName.elim [] fun r => TokenForm.ofKind (.keyword .asWord) :: [.word r.text]) ++
            ((i.source.elim [] fun s => TokenForm.ofKind (.keyword .fromWord) :: [.string s]) ++
              [TokenForm.ofKind .newline]))) := by
    simp [Line.forms]
  rw [hforms]
  refine (accepts_pass (TokenForm.onLine_ofKind rfl)).bind fun t _ => ?_
  refine (accepts_separated id trivial (fun _ _ => trivial) ?_
    (fun r : ProperRun => accepts_takeName r.text _) rfl (fun r => flat_word r.text)
    (fun r => accepts_takeName r.text _) i.first i.more).bind fun path hpath => ?_
  · cases i.localName <;> cases i.source <;> simp
  refine (accepts_optionally id (by decide) ?_ (fun r : ProperRun => accepts_takeName r.text _)
    i.localName).bind fun localName hlocal => ?_
  · cases i.source <;> simp
  refine (accepts_optionally id (by decide) ?_ (fun s : String => accepts_takeString s _)
    i.source).bind fun source hsource => ?_
  · simp
  refine .spanFrom fun l => accepts_finishLine.bind_last fun _ _ => .pure ?_
  simp at hpath hlocal hsource
  simp [Import.erased, Import.tree, hpath, hlocal, hsource]

theorem onLine_operand (o : Script.Operand) : o.form.OnLine := by
  cases o with
  | atom a => exact TokenForm.onLine_spelled rfl
  | string s => exact TokenForm.onLine_string s
  | name n => exact TokenForm.onLine_word n.text

theorem ofToken?_of_form (o : Script.Operand) {t : Token} (h : o.form t) :
    ∃ read, Operand.ofToken? t = some read ∧ read.erased = o.tree := by
  cases o with
  | atom a =>
    refine ⟨⟨.atom, atomName t.text, some t.location⟩, ?_, ?_⟩
    · rw [Operand.ofToken?, show t.kind = .atom from h.1]
    · rw [atomName_of_form h]
      rfl
  | string s =>
    refine ⟨⟨.string, Quoted.decodeString t.text, some t.location⟩, ?_, ?_⟩
    · rw [Operand.ofToken?, h.1]
    · rw [h.2]
      rfl
  | name n =>
    refine ⟨⟨.identifier, t.text, some t.location⟩, ?_, ?_⟩
    · have hword := h.1
      unfold Operand.ofToken?
      split
      · next hk => simp [hk, TokenKind.isWordlike] at hword
      · next hk => simp [hk, TokenKind.isWordlike] at hword
      · rw [if_pos hword]
    · rw [h.2]
      rfl

theorem accepts_operand (o : Script.Operand) {follow : TokenKind → Prop} :
    operand.Accepts [o.form] follow (·.erased = o.tree) := by
  refine .token (onLine_operand o).ne_eof fun s hs => ?_
  obtain ⟨read, hread, htree⟩ := ofToken?_of_form o hs
  refine ⟨read, ?_, htree⟩
  unfold operand
  rw [bind_of_ok _ (rfl : peek s = .ok s.current s), hread]
  rfl

theorem accepts_operandChain (r : Script.Rule) {follow : TokenKind → Prop}
    (hfollow : ∀ k, follow k → k ≠ .arrow) :
    operandChain.Accepts (Line.rule r).forms follow
      (·.map Operand.erased = r.tree.operands) := by
  refine (accepts_separated Operand.erased trivial (fun _ _ => trivial) hfollow
    (fun o => accepts_operand o) rfl (fun o => flat_cons.mpr ⟨onLine_operand o, flat_nil⟩)
    (fun o => accepts_operand o) r.source
    (r.destination :: r.more)).bind_last fun operands hoperands => ?_
  · have hlength : operands.length = r.more.length + 2 := by
      simpa using congrArg List.length hoperands
    rw [if_neg (by omega)]
    exact .pure hoperands

theorem accepts_optionalWith_none {follow : TokenKind → Prop}
    (hfollow : ∀ k, follow k → k ≠ .keyword .withWord) :
    optionalWith.Accepts [] follow (· = none) :=
  .check_of_ne hfollow (.pure rfl)

/-- What a rule is made of on its line. -/
theorem accepts_ruleWords (r : Script.Rule) {withForms : List TokenForm}
    {clause : Option WithClause} {follow : TokenKind → Prop}
    (hhead : ∀ k, Heads withForms follow k → k ≠ .arrow)
    (hwith : optionalWith.Accepts withForms follow (·.map WithClause.erased = clause)) :
    ruleWords.Accepts ((Line.rule r).forms ++ withForms) follow fun words =>
      words.2.1.map Operand.erased = r.tree.operands ∧
        words.2.2.2.map WithClause.erased = clause := by
  refine .peek fun t _ => ?_
  refine (accepts_operandChain r hhead).bind fun operands hoperands => .spanFrom fun header => ?_
  exact hwith.bind_last fun read hread => .pure ⟨hoperands, hread⟩

/-- A rule without a with clause. -/
theorem accepts_ruleWords_none (r : Script.Rule) {follow : TokenKind → Prop}
    (hfollow : ∀ k, follow k → k ≠ .arrow ∧ k ≠ .keyword .withWord) :
    ruleWords.Accepts (Line.rule r).forms follow Anything := by
  have hwith : optionalWith.Accepts [] follow (·.map WithClause.erased = none) :=
    (accepts_optionalWith_none fun k hk => (hfollow k hk).2).imp fun _ hnone => by rw [hnone]; rfl
  have hhead (k : TokenKind) (hk : Heads [] follow k) : k ≠ .arrow := (hfollow k hk).1
  have hwords := accepts_ruleWords r hhead hwith
  rw [List.append_nil] at hwords
  exact hwords.imp fun _ _ => trivial

/-- A rule with a with clause, and the when clauses under it. -/
theorem accepts_flowRule_of (r : Script.Rule) {withForms more : List TokenForm}
    {clause : Option WithClause} {clauses : List WhenClause}
    (hhead : ∀ k, Heads withForms (· = .newline) k → k ≠ .arrow)
    (hwith : optionalWith.Accepts withForms (· = .newline) (·.map WithClause.erased = clause))
    (h : (block (.item whenClause) []).Accepts (.ofKind .newline :: more) (· ≠ .indent)
      (·.map WhenClause.erased = clauses)) :
    flowRule.Accepts ((Line.rule r).forms ++ withForms ++ .ofKind .newline :: more) (· ≠ .indent)
      (·.erased = { r.tree with withClause := clause, whenClauses := clauses }) := by
  rw [flowRule_eq]
  refine ((accepts_ruleWords r hhead hwith).narrow fun k hk => heads_ofKind.mp hk).bind
    fun words hwords => ?_
  obtain ⟨hoperands, hread⟩ := hwords
  refine h.bind_last fun whens hwhens => .spanFrom fun l => ?_
  have hlength : words.2.1.length = r.more.length + 2 := by
    simpa [Rule.tree] using congrArg List.length hoperands
  rw [FlowRule.build, if_neg (by omega)]
  refine .pure ?_
  rw [FlowRule.erased, hoperands, hread, hwhens]
  rfl

/-- A rule with the when clauses under it. -/
theorem accepts_flowRule_block (r : Script.Rule) {clauses : List WhenClause}
    {more : List TokenForm} (h : (block (.item whenClause) []).Accepts (.ofKind .newline :: more)
      (· ≠ .indent) (·.map WhenClause.erased = clauses)) :
    flowRule.Accepts ((Line.rule r).forms ++ .ofKind .newline :: more) (· ≠ .indent)
      (·.erased = { r.tree with whenClauses := clauses }) :=
  List.append_nil (Line.rule r).forms ▸ accepts_flowRule_of r (by simp)
    ((accepts_optionalWith_none (by simp)).imp fun _ hnone => by rw [hnone]; rfl) h

theorem accepts_flowRule (r : Script.Rule) :
    flowRule.Accepts (Outline.itemForms Line.forms (leaf (.rule r))) (· ≠ .indent)
      (·.erased = r.tree) :=
  accepts_flowRule_block r ((accepts_block_nil []).imp fun _ h => by rw [h]; rfl)

theorem flat_destinations (os : List Script.Operand) :
    Flat (os.flatMap fun o => .ofKind .arrow :: [o.form]) :=
  flat_flatMap fun o _ => flat_cons.mpr ⟨TokenForm.onLine_ofKind rfl,
    flat_cons.mpr ⟨onLine_operand o, flat_nil⟩⟩

section

variable {forms : List TokenForm} {condition : Value}
  (hcondition : inlineValue.Accepts forms (· = .arrow) (·.erased = condition))
  {operands : List Script.Operand} (hne : operands ≠ [])

include hcondition hne

/-- What a when clause is made of on its line. -/
theorem accepts_whenWords {follow : TokenKind → Prop}
    (hfollow : ∀ k, follow k → k ≠ .arrow ∧ k ≠ .keyword .withWord) :
    whenWords.Accepts (.ofKind (.keyword .whenWord) ::
        (forms ++ operands.flatMap fun o => .ofKind .arrow :: [o.form])) follow
      (·.erased = ⟨condition, operands.map Operand.tree, none, none⟩) := by
  obtain ⟨first, more, rfl⟩ := List.exists_cons_of_ne_nil hne
  unfold whenWords
  refine Accepts.bind (accepts_expect (by decide) _) fun keyword _ => ?_
  refine (hcondition.narrow fun k hk => heads_ofKind.mp hk).bind fun read hread => ?_
  refine (accepts_followers Operand.erased trivial (fun _ _ => trivial)
    (fun k hk => (hfollow k hk).1) (fun o => accepts_operand o) rfl
    (fun o => flat_cons.mpr ⟨onLine_operand o, flat_nil⟩)
    (first :: more)).bind_last fun os hos => ?_
  refine (accepts_optionalWith_none fun k hk => (hfollow k hk).2).bind_last fun clause hclause => ?_
  subst hclause
  refine .spanFrom fun l => ?_
  have hbuild : WhenClause.build read os none l = .ok ⟨read, os, none, some l⟩ := by
    refine if_neg fun hempty => hne ?_
    rw [List.isEmpty_iff.mp hempty] at hos
    exact List.map_eq_nil_iff.mp hos.symm
  rw [hbuild]
  refine .pure ?_
  rw [WhenClause.erased, hread, hos]
  rfl

theorem accepts_whenClause_of :
    whenClause.Accepts (.ofKind (.keyword .whenWord) ::
        (forms ++ operands.flatMap fun o => .ofKind .arrow :: [o.form]) ++
          [.ofKind .newline]) (· ≠ .indent)
      (·.erased = ⟨condition, operands.map Operand.tree, none, none⟩) := by
  rw [whenClause_eq]
  refine ((accepts_whenWords hcondition hne fun k hk => ?_).narrow
    fun k hk => heads_ofKind.mp hk).bind fun clause hclause =>
      accepts_finishLine.bind_last fun _ _ => .pure hclause
  rw [hk]
  decide

end

theorem opens_line (l : Script.Line) : Opens l.forms := by
  cases l with
  | importOf i => exact ⟨_, _, rfl, TokenForm.onLine_ofKind rfl⟩
  | header form name => exact ⟨_, _, rfl, TokenForm.onLine_ofKind rfl⟩
  | field key text => exact ⟨_, _, rfl, TokenForm.onLine_spelled rfl⟩
  | rule r => exact ⟨_, _, rfl, onLine_operand r.source⟩
  | textMessage name text => exact ⟨_, _, rfl, TokenForm.onLine_ofKind rfl⟩
  | reply r => exact ⟨_, _, rfl, TokenForm.onLine_ofKind rfl⟩

/-- A flow is the header of it with its rules below. -/
theorem accepts_flowOf {ι κ : Type} {words : ι → List TokenForm} {head : ι}
    {entry : κ → ι × Outline ι} {name : Name} {tree : κ → FlowRule} {rules : List κ}
    (hhead : words head = headerForms .flow name) (hopens : ∀ l, Opens (words l))
    (h : ∀ x ∈ rules, flowRule.Accepts (Outline.itemForms words (entry x)) (· ≠ .indent)
      (·.erased = tree x)) :
    flowSection.Accepts (Outline.itemForms words (head, .ofList (rules.map entry)))
      (· ≠ .indent) (·.erased = ⟨name.text, rules.map tree, none⟩) := by
  rw [Outline.itemForms, hhead]
  unfold flowSection
  refine .headed fun t => ?_
  refine (accepts_block_items hopens h).bind_last fun rules hrules => .spanFrom fun l => .pure ?_
  rw [Flow.erased, hrules]

theorem accepts_flowSection (f : Script.Flow) :
    flowSection.Accepts (Outline.itemForms Line.forms f.outline) (· ≠ .indent)
      (·.erased = f.tree) :=
  accepts_flowOf rfl opens_line fun r _ => accepts_flowRule r

theorem accepts_reply (postback : Option String) {follow : TokenKind → Prop}
    (hfollow : ∀ k, follow k → k ≠ .string) :
    (suggestionAction .reply).Accepts (postback.elim [] fun s => [.string s]) follow
      (· = .reply postback) := by
  have hstring : (optionalString "postback data").Accepts (postback.elim [] fun s => [.string s])
      follow (· = postback) := by
    cases postback with
    | none => exact .check_of_ne hfollow (.pure rfl)
    | some s =>
      refine .check_of (fun _ => kind_of_heads_string) ?_
      exact (accepts_takeString s _).bind_last fun text htext => .pure (congrArg some htext)
  exact hstring.bind_last fun _ h => .pure (congrArg SuggestionAction.reply h)

theorem accepts_takeTraffic_none {follow : TokenKind → Prop}
    (hfollow : ∀ k, follow k → k.traffic? = none) : takeTraffic.Accepts [] follow (· = none) := by
  refine .kind fun k hk => ?_
  rw [hfollow k hk]
  exact .pure rfl

theorem accepts_takeOptionalName (name : Option ProperRun) {follow : TokenKind → Prop}
    (hfollow : ∀ k, follow k → k = .string) :
    takeOptionalName.Accepts (name.elim [] fun r => [.properName r.text]) follow
      (· = name.map (·.text)) := by
  refine .kind fun k hk => ?_
  cases name with
  | none =>
    rw [hfollow k hk, if_neg (by decide)]
    exact .pure rfl
  | some r =>
    obtain ⟨t, ht, rfl⟩ := hk
    have hname :
        (t.kind == .properWord || t.kind == .commonNoun || t.kind.isLiteralWord) = true := by
      rcases ht.1 with hproper | hliteral
      · simp [hproper]
      · simp [hliteral]
    rw [if_pos hname]
    have hpass : (TokenForm.properName r.text).OnLine :=
      fun _ ht => isStructural_of_isWordlike (TokenForm.word_of_properName ht).1
    exact (accepts_pass hpass).bind_last fun t ht => .pure (congrArg some ht.2)

theorem accepts_suggestion (r : Script.Reply) :
    suggestion.Accepts (Outline.itemForms Line.forms (leaf (.reply r))) (· ≠ .indent)
      (·.erased = r.tree) := by
  have hforms : Outline.itemForms Line.forms (leaf (.reply r)) =
      [TokenForm.ofKind (.keyword (.suggestion .reply))] ++ ([TokenForm.string r.text] ++
        ((r.postback.elim [] fun s => [TokenForm.string s]) ++ [TokenForm.ofKind .newline])) := by
    simp [Outline.itemForms, leaf, Line.forms, Outline.blockForms]
  rw [hforms]
  unfold suggestion
  refine .kind fun k hk => ?_
  rw [List.singleton_append, heads_ofKind] at hk
  subst hk
  refine (accepts_pass (TokenForm.onLine_ofKind rfl)).bind fun t _ => ?_
  refine (accepts_takeString r.text _).bind fun text htext => ?_
  refine (accepts_reply r.postback (by simp)).bind fun action haction => .spanFrom fun l => ?_
  refine accepts_finishLine.bind_last fun _ _ => .pure ?_
  rw [Suggestion.erased, htext, haction]
  rfl

theorem accepts_textMessage (m : Script.TextMessage) :
    message.Accepts (Outline.itemForms Line.forms m.outline) (· ≠ .indent) (·.erased = m.tree) := by
  have hforms : Outline.itemForms Line.forms m.outline =
      [TokenForm.ofKind (.keyword (.form .text))] ++
        ((m.name.elim [] fun r => [TokenForm.properName r.text]) ++
          ([TokenForm.string m.text] ++ (.ofKind .newline :: m.outline.2.blockForms
            (m.outline.2.forms Line.forms)))) := by
    simp [Outline.itemForms, TextMessage.outline, Line.forms]
  rw [hforms]
  unfold message
  refine (accepts_takeTraffic_none (by simp [TokenKind.traffic?])).bind
    fun traffic htraffic => .kind fun k hk => ?_
  rw [List.singleton_append, heads_ofKind] at hk
  subst hk htraffic
  change (textMessage none).Accepts _ _ _
  unfold textMessage
  refine (accepts_pass (TokenForm.onLine_ofKind rfl)).bind fun t _ => ?_
  refine (accepts_takeOptionalName m.name fun _ => kind_of_heads_string).bind fun name hname => ?_
  refine (accepts_takeString m.text _).bind fun text htext => ?_
  refine (accepts_block_items opens_line fun r _ => accepts_suggestion r).bind_last
    fun suggestions hsuggestions => .spanFrom fun l => .pure ?_
  rw [Message.erased, MessageHeader.erased, hsuggestions, hname, htext]
  rfl

theorem accepts_messageSection (ms : List Script.TextMessage) :
    messageSection.Accepts
      (Outline.itemForms Line.forms (.header .messages none, .ofList (ms.map TextMessage.outline)))
      (· ≠ .indent) (·.erased = ⟨none, ms.map TextMessage.tree, none⟩) := by
  unfold messageSection
  refine (accepts_pass (TokenForm.onLine_ofKind rfl)).bind fun t _ => ?_
  refine (accepts_noSectionName ?_).bind fun name hname => ?_
  · simp
  refine (accepts_expect (by decide) _).bind fun _ _ => ?_
  refine (accepts_block_items opens_line fun m _ => accepts_textMessage m).bind_last
    fun messages hmessages => .spanFrom fun l => .pure ?_
  rw [MessageSection.erased, hmessages, hname]

theorem accepts_startsEntry {form : TokenForm} {forms : List TokenForm}
    {follow : TokenKind → Prop} {yes no : Parser α} {R : α → Prop}
    (hword : ∀ t, form t → t.kind.isWordlike = true)
    (h : yes.Accepts (form :: .ofKind .colon :: forms) follow R) :
    (look startsEntry >>= fun c => if c = true then yes else no).Accepts
      (form :: .ofKind .colon :: forms) follow R := by
  refine .look fun s rest hs => ?_
  obtain ⟨hfirst, hcolon⟩ := hs.cons_cons
  have hstarts : startsEntry s = true := by
    have hk : (s.ahead 1).kind = .colon := hcolon
    rw [startsEntry, ParserState.kind, hword _ hfirst, hk]
    rfl
  rw [if_pos hstarts]
  exact h

theorem accepts_agentAttribute (p : AgentParts) (key : Key) (text : String)
    (h : key.text? p = none) :
    (agentAttribute p).Accepts (Outline.itemForms Line.forms (leaf (.field key text)))
      (· ≠ .indent)
      (· = key.fill p text) := by
  have hforms : Outline.itemForms Line.forms (leaf (.field key text)) =
      [TokenForm.spelled (· = .commonNoun) key.word.text] ++ ([TokenForm.ofKind .colon] ++
        ([TokenForm.string text] ++ [TokenForm.ofKind .newline])) := rfl
  rw [hforms]
  unfold agentAttribute
  refine .peek_form fun t ht => ?_
  have hkey : t.text = key.word.text := ht.2
  dsimp only
  rw [hkey, if_neg (by cases key <;> decide)]
  refine (accepts_pass (TokenForm.onLine_spelled rfl)).bind fun _ _ => ?_
  refine (accepts_pass (TokenForm.onLine_ofKind rfl)).bind fun _ _ => ?_
  refine (accepts_takeString text _).bind fun read hread => ?_
  subst hread
  refine accepts_finishLine.bind_last fun _ _ => ?_
  cases key with
  | displayName =>
    exact (accepts_fillOnce h _ _ _).bind_last fun old hold => .pure (by rw [hold]; rfl)
  | brandName =>
    exact (accepts_fillOnce h _ _ _).bind_last fun old hold => .pure (by rw [hold]; rfl)

theorem accepts_agentPart_field (p : AgentParts) (key : Key) (text : String)
    (h : key.text? p = none) :
    (agentPart p).Accepts (Outline.itemForms Line.forms (leaf (.field key text)))
      (· ≠ .indent)
      (· = key.fill p text) := by
  unfold agentPart
  refine .peek_form fun t ht => ?_
  have hk : t.kind = .commonNoun := ht.1
  simp only [hk]
  refine accepts_startsEntry (fun t ht => ?_) (accepts_agentAttribute p key text h)
  rw [show t.kind = .commonNoun from ht.1]
  rfl

theorem accepts_agentPart_flow (p : AgentParts) {forms : List TokenForm} {Q : Flow → Prop}
    (hk : ∀ k, Heads forms (· ≠ .indent) k → k = .keyword (.opening .flow))
    (h : flowSection.Accepts forms (· ≠ .indent) Q) :
    (agentPart p).Accepts forms (· ≠ .indent)
      fun p' => ∃ read, Q read ∧ p' = { p with flows := p.flows ++ [read] } := by
  unfold agentPart
  refine .peek fun t ht => ?_
  simp only [hk _ ht]
  exact h.bind_last fun read hread => .pure ⟨read, hread, rfl⟩

theorem accepts_agentPart_messages (p : AgentParts) (ms : List Script.TextMessage)
    (h : p.messages = none) :
    (agentPart p).Accepts
      (Outline.itemForms Line.forms (.header .messages none, .ofList (ms.map TextMessage.outline)))
      (· ≠ .indent)
      fun p' => ∃ read : MessageSection, read.erased = ⟨none, ms.map TextMessage.tree, none⟩ ∧
        p' = { p with messages := some read } := by
  unfold agentPart
  refine .peek_form fun t ht => ?_
  have hk : t.kind = .keyword (.opening .messages) := ht
  simp only [hk]
  refine (accepts_messageSection ms).bind_last fun read hread => ?_
  exact (accepts_fillOnce h _ _ _).bind_last fun old hold => .pure ⟨read, hread, by rw [hold]⟩

/-- The lines of flows, and of what comes after them. -/
theorem collects_flows {ι κ : Type} {words : ι → List TokenForm} {outline : κ → ι × Outline ι}
    {tree : κ → Flow} {fs : List κ} {items : List (ι × Outline ι)} {p : AgentParts}
    {Q : AgentParts → Prop} (hopens : ∀ l, Opens (words l))
    (hhead : ∀ f k, Heads (Outline.itemForms words (outline f)) (· ≠ .indent) k →
      k = .keyword (.opening .flow))
    (hflow : ∀ f ∈ fs, flowSection.Accepts (Outline.itemForms words (outline f)) (· ≠ .indent)
      (·.erased = tree f))
    (h : ∀ flows : List Flow, flows.map Flow.erased = fs.map tree →
      (LineParser.whole agentPart).Collects { p with flows := p.flows ++ flows }
        ((Outline.ofList items).forms words) Q) :
    (LineParser.whole agentPart).Collects p
      ((Outline.ofList (fs.map outline ++ items)).forms words) Q := by
  induction fs generalizing p with
  | nil => simpa using h [] rfl
  | cons f fs ih =>
    rw [List.forall_mem_cons] at hflow
    refine LineParser.collects_cons hopens
      (LineParser.adds_whole (accepts_agentPart_flow p (hhead f) hflow.1)) ?_
    rintro _ ⟨read, hread, rfl⟩
    refine ih hflow.2 fun flows hflows => ?_
    simpa using h (read :: flows) (by rw [List.map_cons, List.map_cons, hread, hflows])

/-- The lines below the agent's own, from the flows on. -/
theorem collects_sections (s : Script) :
    (LineParser.whole agentPart).Collects
      ⟨some s.displayName, s.brandName, none, none, [], none⟩
      ((Outline.ofList s.sections).forms Line.forms)
      fun p => (Agent.ofParts s.name.text p default).erased = s.agent := by
  refine collects_flows opens_line (fun _ _ hk => heads_ofKind.mp hk)
    (fun f _ => accepts_flowSection f) fun flows hflows => ?_
  refine LineParser.collects_cons opens_line
    (LineParser.adds_whole (accepts_agentPart_messages _ s.messages rfl)) ?_
  rintro _ ⟨messages, hmessages, rfl⟩
  refine LineParser.collects_nil ?_
  simp [Agent.ofParts, Agent.erased, Script.agent, hflows, hmessages]

/-- The lines below the agent's own. -/
theorem collects_parts (s : Script) :
    (LineParser.whole agentPart).Collects .empty ((Outline.ofList s.parts).forms Line.forms)
      fun p => (Agent.ofParts s.name.text p default).erased = s.agent := by
  have hsections := collects_sections s
  refine LineParser.collects_cons opens_line
    (LineParser.adds_whole (accepts_agentPart_field .empty .displayName s.displayName rfl)) ?_
  rintro _ rfl
  cases hbrand : s.brandName with
  | none => rwa [hbrand] at hsections
  | some brand =>
    rw [hbrand] at hsections
    refine LineParser.collects_cons opens_line
      (LineParser.adds_whole (accepts_agentPart_field _ .brandName brand rfl)) ?_
    rintro _ rfl
    exact hsections

theorem accepts_agent (s : Script) :
    agent.Accepts (Outline.itemForms Line.forms (.header .agent s.name, .ofList s.parts))
      (· ≠ .indent) (·.erased = s.agent) :=
  accepts_agentOf rfl (collects_parts s)

end Parser

open FileParts

namespace Script

/-- The imports, and what comes after them. -/
theorem collects_imports {is : List Import} {items : List (Line × Outline Line)} {f : FileParts}
    {Q : FileParts → Prop}
    (h : ∀ f' : FileParts, f'.imports.map AgentScript.Import.erased =
        f.imports.map AgentScript.Import.erased ++ is.map Import.tree → f'.agent = f.agent →
      itemLine.Collects f' ((Outline.ofList items).forms Line.forms) Q) :
    itemLine.Collects f
      ((Outline.ofList (is.map (fun i => leaf (.importOf i)) ++ items)).forms Line.forms) Q := by
  induction is generalizing f with
  | nil => exact h f (by simp) rfl
  | cons i is ih =>
    refine LineParser.collects_cons Parser.opens_line
      (adds_import ?_ (Parser.accepts_importLine i)) ?_
    · rintro k ⟨t, ht, rfl⟩
      exact ht
    · rintro _ ⟨read, hread, rfl⟩
      refine ih fun f' himports hagent => h f' ?_ hagent
      rw [himports, List.map_append, List.map_singleton, hread, List.map_cons, List.append_assoc]
      rfl

theorem collects_outline (s : Script) :
    itemLine.Collects .empty (s.outline.forms Line.forms)
      (Are (s.imports.map Import.tree) s.agent) := by
  refine collects_imports fun f himports hagent => ?_
  exact collects_agent rfl Parser.opens_line (Parser.accepts_agent s) himports hagent

end Script

/-- A script is read as it was written: there are no errors, and its tree is found again. -/
theorem Document.readAs_script (s : Script) (options : ParseOptions) :
    (Document.ofSource s.print options).ReadAs s.tree :=
  readAs_print Script.lineReadsAs_line s.outline s.collects_outline options

/-- An agent with the name of a keyword. -/
def Script.pizzeria : Script where
  imports := [⟨⟨"Shared", by decide⟩, [⟨"Delivery Times", by decide⟩], some ⟨"Times", by decide⟩,
    some "lib/hours"⟩]
  name := .lower ⟨"flow", by decide⟩
  displayName := "Pizza \"Roma\""
  brandName := none
  flows := [⟨.proper ⟨"Take Order", by decide⟩,
    [⟨.name (.lower ⟨"start", by decide⟩), .name (.proper ⟨"Choose Pizza", by decide⟩),
      [.atom ⟨"done", by decide⟩]⟩]⟩]
  messages := [⟨some ⟨"Greeting", by decide⟩, "Hungry?\n", [⟨"Yes", some "order"⟩, ⟨"No", none⟩]⟩]

theorem Document.readAs_script_pizzeria :
    Script.pizzeria.print =
      "import Shared/Delivery Times as Times from \"lib/hours\"\n" ++
        "agent flow:\n" ++
        "  displayName: \"Pizza \\\"Roma\\\"\"\n" ++
        "  flow Take Order:\n" ++
        "    start -> Choose Pizza -> :done\n" ++
        "  messages:\n" ++
        "    text Greeting \"Hungry?\\n\"\n" ++
        "      reply \"Yes\" \"order\"\n" ++
        "      reply \"No\"\n" ∧
      (Document.ofSource Script.pizzeria.print .standard).ReadAs Script.pizzeria.tree :=
  ⟨by decide +kernel, readAs_script Script.pizzeria .standard⟩

end AgentScript
