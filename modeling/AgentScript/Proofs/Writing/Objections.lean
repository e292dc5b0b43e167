import AgentScript.Proofs.Sentences.FlowSections
import AgentScript.Proofs.Shapes.CleanParses
import AgentScript.Proofs.Writing.Interruptions
import AgentScript.Proofs.Writing.ScriptTrees

/-!
# Objecting to what was written

A parser objects to tokens of certain forms if it does not answer there without having reported a
problem. Problems are never taken back, so what a part objects to is objected to by the whole, and
a loop over lines objects where it comes to a line that is objected to.
-/
namespace AgentScript

open ParserState Writing

variable {α β γ : Type}

/-- Before tokens of the forms, with a token of the kinds `follow` behind them, the parser fails or
leaves a problem. -/
def Parser.Objects (p : Parser α) (forms : List TokenForm) (follow : TokenKind → Prop) : Prop :=
  ∀ ⦃s : ParserState⦄ ⦃rest : List Token⦄, s.Before forms follow rest →
    ∀ ⦃a : α⦄ ⦃t : ParserState⦄, p s = .ok a t → t.problems ≠ #[]

namespace ParserState

variable {s t : ParserState}

/-- Behind a token that has been passed its kind is remembered. -/
theorem Leads.exists_passed (h : s.Leads t) : t.tokens = s.tokens ∨
    ∃ passed x, s.tokens = passed ++ x :: t.tokens ∧ t.previous = some x.kind := by
  induction h with
  | refl => exact .inl rfl
  | @advance t _ ih =>
    unfold ParserState.advance
    cases hrest : t.rest with
    | nil => exact ih
    | cons x rest =>
      have htokens : t.tokens = x :: (rest ++ [t.ending]) := by rw [ParserState.tokens, hrest]; rfl
      rcases ih with heq | ⟨passed, y, heq, -⟩
      · exact .inr ⟨[], x, heq.symm.trans htokens, rfl⟩
      · refine .inr ⟨passed ++ [y], x, ?_, rfl⟩
        rw [heq, htokens, List.append_assoc]
        rfl
  | report _ p ih =>
    unfold ParserState.report
    split_ifs
    · exact ih
    · exact ih

end ParserState

namespace Parser

variable {p : Parser α} {g : α → Parser β} {forms forms' : List TokenForm}
  {follow : TokenKind → Prop} {Q : α → Prop}

/-- What comes later cannot make up for it. -/
theorem Objects.bind [∀ a, Proceeds (g a)] (h : p.Objects forms follow) :
    (p >>= g).Objects forms follow := by
  intro s rest hs b u hb hclean
  obtain ⟨a, t, ha, hg⟩ := bind_eq_ok.mp hb
  exact h hs ha (((g a).leads_of_ok hg).clean hclean)

theorem Accepts.bind_objects (h : p.Accepts forms (Heads forms' follow) Q)
    (h' : ∀ a, Q a → (g a).Objects forms' follow) : (p >>= g).Objects (forms ++ forms') follow := by
  intro s rest hs b u hb
  obtain ⟨middle, hfirst, hsecond⟩ := hs.split
  obtain ⟨a, t, hp, ha, ht⟩ := h hfirst
  rw [bind_of_ok g hp] at hb
  exact h' a ha (hsecond t ht) hb

theorem Objects.look {f : ParserState → γ} {g : γ → Parser β}
    (h : ∀ s rest, s.Before forms follow rest → (g (f s)).Objects forms follow) :
    (Parser.look f >>= g).Objects forms follow :=
  fun s rest hs => h s rest hs hs

theorem Objects.peek {g : Token → Parser β}
    (h : ∀ t, Heads forms follow t.kind → (g t).Objects forms follow) :
    (Parser.peek >>= g).Objects forms follow :=
  .look fun _ _ hs => h _ hs.heads

/-- Where words have been passed and another one comes, the line cannot end. -/
theorem Accepts.bind_objects_word [Proceeds p] (h : p.Accepts forms follow Q) (hflat : Flat forms)
    (hne : forms ≠ []) (hword : ∀ k, follow k → k.isStructural = false)
    (hg : ∀ a t e, finishLine t = .error e t → ∃ e' t', g a t = .error e' t') :
    (p >>= g).Objects forms follow := by
  intro s rest hs b u hb
  obtain ⟨a, t, hp, -, ht⟩ := h hs
  obtain ⟨passed, htokens, hforms⟩ := hs.tokens
  obtain ⟨next, more, rfl, hnext⟩ := hs.follows
  -- At the beginning of a line the end of the last one would do, so a word must have been passed.
  have hprevious : ∃ k, t.previous = some k ∧ k.isStructural = false := by
    rcases (p.leads_of_ok hp).exists_passed with heq | ⟨front, x, heq, hx⟩
    · rw [ht.tokens, htokens, List.self_eq_append_left] at heq
      subst heq
      cases hforms
      exact absurd rfl hne
    · rw [ht.tokens, htokens, List.append_cons front x, List.append_left_inj] at heq
      subst heq
      exact ⟨x.kind, hx, hforms.isStructural_eq hflat x (List.mem_concat_self ..)⟩
  have hkind : t.kind.isStructural = false := by
    rw [kind_of_tokens ht.tokens]
    exact hword _ hnext
  obtain ⟨e, v, herror⟩ := hg a t _ (finishLine_of_word hkind hprevious)
  rw [bind_of_ok g hp, herror] at hb
  cases hb

theorem objects_eat {k : TokenKind} (hk : k ≠ .eof) {yes no : Parser β}
    (h : yes.Objects forms follow) :
    (eat k >>= fun c => if c = true then yes else no).Objects (.ofKind k :: forms) follow := by
  intro s rest hs
  rw [eat_bind_eq, check_bind_apply, if_pos (heads_ofKind.mp hs.heads)]
  have hadvance : advance.Accepts [.ofKind k] (Heads forms follow) (TokenForm.ofKind k) :=
    accepts_advance fun t ht => by rwa [show t.kind = k from ht]
  exact hadvance.bind_objects (fun _ _ => h) hs

section

variable {ι : Type} {line : α → Parser α} [∀ a, Proceeds (line a)] {words : ι → List TokenForm}
  {items : List (ι × Outline ι)} {gathered : α} {s : ParserState}

/-- Where something is written that a line objects to, the loop over lines ends with a problem. -/
theorem problems_runLines_of_objects {rest : List Token} (hopens : Opens forms)
    (h : (line gathered).Objects forms follow) (hs : s.Before forms follow rest) :
    (s.runLines (.whole line) gathered).2.problems ≠ #[] := by
  intro hclean
  have hlater := (leads_runLines_resumed (hs.reads hopens) gathered).clean hclean
  obtain ⟨hnone, hstate⟩ := LineResult.clean_of_resumed hlater
  cases hline : line gathered s with
  | ok a t =>
    rw [LineParser.whole_of_ok hline] at hstate
    exact h hs hline hstate
  | error e t =>
    rw [LineParser.whole_of_error hline] at hnone
    cases hnone

variable (hopens : ∀ l, Opens (words l)) (hforms : Opens forms)
  (hgood : ∀ x ∈ items, ∀ gathered,
    (LineParser.whole line).Adds gathered (Outline.itemForms words x) Anything)
  (hbad : ∀ gathered, (line gathered).Objects forms follow)

include hopens hforms hgood hbad

/-- A loop over lines ends with a problem if it comes to a line that is objected to. -/
theorem problems_runLines {rest : List Token}
    (hs : s.Before ((Outline.ofList items).forms words ++ forms) follow rest) :
    (s.runLines (.whole line) gathered).2.problems ≠ #[] := by
  induction items generalizing gathered s with
  | nil => exact problems_runLines_of_objects hforms (hbad gathered) hs
  | cons x items ih =>
    rw [List.forall_mem_cons] at hgood
    have hitem : Opens (Outline.itemForms words x) := (hopens x.1).append _
    have hlater : Opens ((Outline.ofList items).forms words ++ forms) := by
      rcases Opens.ofList hopens items with hnil | hlines
      · rwa [hnil]
      · exact hlines.append _
    rw [Outline.forms_ofList, List.flatMap_cons, ← Outline.forms_ofList, List.append_assoc] at hs
    obtain ⟨middle, hfirst, hsecond⟩ := hs.split
    obtain ⟨more, t, hline, -, ht⟩ := hgood.1 gathered (hfirst.imp fun _ => hlater.heads_ne_indent)
    rw [(lineLoop_runLines _).done _ _ _ _ (hfirst.reads hitem) hline
      (hfirst.remaining_lt hitem ht)]
    exact ih hgood.2 (hsecond t ht)

theorem objects_block :
    (block (.whole line) gathered).Objects
      (.ofKind .newline :: .ofKind .indent :: ((Outline.ofList items).forms words ++ forms))
      follow := by
  refine accepts_finishLine.bind_objects fun _ _ => objects_eat (by decide) ?_
  intro s rest hs a t hok
  rw [blockLines_eq] at hok
  cases hok
  exact problems_runLines hopens hforms hgood hbad hs

end

instance proceeds_ruleWords : Proceeds ruleWords := by
  unfold ruleWords
  infer_instance

instance proceeds_whenWords : Proceeds whenWords := by
  unfold whenWords
  infer_instance

/-- A word that neither goes on with a chain nor begins a with clause. -/
def IsStray (k : TokenKind) : Prop :=
  k.isStructural = false ∧ k ≠ .arrow ∧ k ≠ .keyword .withWord

theorem flat_rule (r : Script.Rule) : Flat (Script.Line.rule r).forms :=
  flat_cons.mpr ⟨onLine_operand _, flat_destinations _⟩

/-- The end of the line is asked for behind the words of a rule. -/
theorem objects_flowRule_word (r : Script.Rule) (hfollow : ∀ k, follow k → IsStray k) :
    flowRule.Objects (Script.Line.rule r).forms follow := by
  rw [flowRule_eq]
  refine (accepts_ruleWords_none r fun k hk => (hfollow k hk).2).bind_objects_word (flat_rule r)
    (List.cons_ne_nil _ _) (fun k hk => (hfollow k hk).1) fun words t e he => ⟨e, t, ?_⟩
  have hblock : block (.item whenClause) [] t = .error e t := bind_of_error _ he
  exact bind_of_error _ hblock

/-- The end of the line is asked for behind the words of a when clause. -/
theorem objects_whenClause_word {condition : Value}
    (hcondition : inlineValue.Accepts forms (· = .arrow) (·.erased = condition))
    (hflat : Flat forms) {operands : List Script.Operand} (hne : operands ≠ [])
    (hfollow : ∀ k, follow k → IsStray k) :
    whenClause.Objects (.ofKind (.keyword .whenWord) ::
      (forms ++ operands.flatMap fun o => .ofKind .arrow :: [o.form])) follow := by
  have hwords : Flat (.ofKind (.keyword .whenWord) ::
      (forms ++ operands.flatMap fun o => .ofKind .arrow :: [o.form])) :=
    flat_cons.mpr ⟨TokenForm.onLine_ofKind rfl, flat_append.mpr ⟨hflat, flat_destinations _⟩⟩
  rw [whenClause_eq]
  exact (accepts_whenWords hcondition hne fun k hk => (hfollow k hk).2).bind_objects_word
    hwords (List.cons_ne_nil _ _) (fun k hk => (hfollow k hk).1)
    fun clause t e he => ⟨e, t, bind_of_error _ he⟩

/-- A rule is objected to if it comes to a when clause that is. -/
theorem objects_flowRule_below (r : Script.Rule) {ι : Type} {words : ι → List TokenForm}
    {items : List (ι × Outline ι)} (hopens : ∀ l, Opens (words l)) (hforms : Opens forms)
    (hgood : ∀ x ∈ items, whenClause.Accepts (Outline.itemForms words x) (· ≠ .indent) Anything)
    (hbad : whenClause.Objects forms follow) :
    flowRule.Objects ((Script.Line.rule r).forms ++ .ofKind .newline :: .ofKind .indent ::
      ((Outline.ofList items).forms words ++ forms)) follow := by
  rw [flowRule_eq]
  refine (accepts_ruleWords_none r fun k hk => ?_).bind_objects fun words _ => ?_
  · rw [heads_ofKind.mp hk]
    decide
  · refine (objects_block hopens hforms (fun x hx gathered => ?_) fun gathered => ?_).bind
    · exact LineParser.adds_whole ((hgood x hx).bind_last fun _ _ => .pure trivial)
    · exact hbad.bind

theorem Objects.headed {form : SectionForm} {name : Name} {what colon : String}
    {f : Token → String → Parser β} (h : ∀ t, (f t name.text).Objects forms follow) :
    (do
      let t ← advance
      let read ← takeName what
      let _ ← expect .colon colon
      f t read).Objects (headerForms form name ++ forms) follow := by
  have hforms : headerForms form name ++ forms = [.ofKind (.keyword (.opening form))] ++
      ([.word name.text] ++ ([.ofKind .colon] ++ forms)) := rfl
  rw [hforms]
  refine (accepts_pass (TokenForm.onLine_ofKind rfl)).bind_objects fun t _ => ?_
  refine (accepts_takeName name.text _).bind_objects fun read hread => ?_
  rw [hread]
  exact (accepts_expect (by decide) _).bind_objects fun _ _ => h t

section

variable {ι : Type} {words : ι → List TokenForm} {items : List (ι × Outline ι)} {name : Name}
  (hopens : ∀ l, Opens (words l)) (hforms : Opens forms)

include hopens hforms

/-- A flow is objected to if it comes to a rule that is. -/
theorem objects_flowOf
    (hgood : ∀ x ∈ items, flowRule.Accepts (Outline.itemForms words x) (· ≠ .indent) Anything)
    (hbad : flowRule.Objects forms follow) :
    flowSection.Objects (headerForms .flow name ++ .ofKind .newline :: .ofKind .indent ::
      ((Outline.ofList items).forms words ++ forms)) follow := by
  unfold flowSection
  refine .headed fun t => ?_
  refine (objects_block hopens hforms (fun x hx gathered => ?_) fun gathered => ?_).bind
  · exact LineParser.adds_whole ((hgood x hx).bind_last fun _ _ => .pure trivial)
  · exact hbad.bind

/-- An agent is objected to if it comes to a flow that is. -/
theorem objects_agentOf
    (hflow : ∀ x ∈ items, ∀ k, Heads (Outline.itemForms words x) (· ≠ .indent) k →
      k = .keyword (.opening .flow))
    (hgood : ∀ x ∈ items, flowSection.Accepts (Outline.itemForms words x) (· ≠ .indent) Anything)
    (hhere : ∀ k, Heads forms follow k → k = .keyword (.opening .flow))
    (hbad : flowSection.Objects forms follow) :
    agent.Objects (headerForms .agent name ++ .ofKind .newline :: .ofKind .indent ::
      ((Outline.ofList items).forms words ++ forms)) follow := by
  unfold agent
  refine .headed fun t => ?_
  refine (objects_block hopens hforms (fun x hx gathered => ?_) fun gathered => ?_).bind
  · exact LineParser.adds_whole ((accepts_agentPart_flow _ (hflow x hx) (hgood x hx)).imp
      fun _ _ => trivial)
  · unfold agentPart
    refine .peek fun t ht => ?_
    simp only [hhere _ ht]
    exact hbad.bind

end

end Parser

theorem ParsedFile.errors_of_objects {tokens passed more : List Token} {x : Token}
    {forms : List TokenForm} {follow : TokenKind → Prop} (hforms : Opens forms)
    (hk : ∀ k, Heads forms follow k → k = .keyword (.opening .agent))
    (h : Parser.agent.Objects forms follow) (htokens : tokens = passed ++ x :: more)
    (hpassed : Token.Match passed forms) (hx : follow x.kind) (options : ParseOptions)
    (hall : (ParserState.ofTokens tokens options.maxErrors).tokens = tokens) :
    (ofTokens tokens options).errors ≠ [] := by
  intro herrors
  have hs : (ParserState.ofTokens tokens options.maxErrors).Before forms follow (x :: more) := {
    tokens := ⟨passed, hall.trans htokens, hpassed⟩
    follows := ⟨x, more, rfl, hx⟩
    ending := ending_kind_ofTokens _ _
    going := halted_ofTokens _ _ }
  have hclean : (read (.ofTokens tokens options.maxErrors)).2.problems = #[] := by
    simpa [ofTokens] using herrors
  have hitems := (leads_read_items _).clean hclean
  obtain ⟨hnone, hstate⟩ := LineResult.clean_of_resumed
    ((FileParts.leads_runItems_resumed .empty (hs.reads hforms)).clean hitems)
  rw [FileParts.itemLine_agent _ (hk _ hs.heads)] at hnone hstate
  cases hagent : Parser.agent (.ofTokens tokens options.maxErrors) with
  | ok a t =>
    rw [hagent] at hstate
    exact h hs hagent hstate
  | error e t =>
    rw [hagent] at hnone
    cases hnone

/-- A printed outline that the agent objects to, as far as it is known, makes a document with
errors. -/
theorem Document.parseErrors_of_objects {ι : Type} {text : ι → List Char}
    {words : ι → List TokenForm} {o : Outline ι} {forms : List TokenForm}
    {follow : TokenKind → Prop} (ho : o.Begins text words follow 0 forms) (hforms : Opens forms)
    (hk : ∀ k, Heads forms follow k → k = .keyword (.opening .agent))
    (h : Parser.agent.Objects forms follow) (options : ParseOptions) :
    (Document.ofSource (String.ofList (o.print text 0)) options).parseErrors ≠ [] := by
  obtain ⟨passed, x, more, htokens, hpassed, hx⟩ := Reading.tokens_of_begins ho
  have herrors := ParsedFile.errors_of_objects hforms hk h htokens hpassed hx options
    (tokens_ofSource _ _)
  unfold Document.ofSource TokenizedText.ofLabelledSource
  rwa [String.toList_ofList]

end AgentScript
