import AgentScript.Proofs.Parsing.ErrorCap
import AgentScript.Proofs.Parsing.LineByLine
import AgentScript.Proofs.Sentences.FlowBodies

/-!
# Flows in documents

The parse of a document comes to the body of a flow whatever it has found before, and it passes
a sentence there as if it were one token. So in a document that is valid otherwise the bodies
without errors are the sentences of the grammar.
-/
namespace AgentScript

open FlowGrammar ParserState Computability

variable {kinds : List TokenKind} {body rest : List Token} {s t : ParserState}

theorem LogicalLines.ne_eof (h : LogicalLines kinds) : ∀ k ∈ kinds, k ≠ .eof := by
  have hwords {words : List TokenKind} (inLine : ∀ k ∈ words, k.isStructural = false) :
      ∀ k ∈ words, k ≠ .eof := by
    rintro k hk rfl
    exact nomatch inLine _ hk
  induction h with
  | nil => exact List.forall_mem_nil _
  | line inLine later ih =>
    simp only [List.forall_mem_append, List.forall_mem_cons]
    exact ⟨hwords inLine, by decide, ih⟩
  | block inLine inner later ihinner ih =>
    simp only [List.forall_mem_append, List.forall_mem_cons]
    exact ⟨hwords inLine, by decide, by decide, ihinner, by decide, ih⟩

namespace ParserState

theorem exists_takes (he : s.ending.kind = .eof) (hs : s.tokens = body ++ rest)
    (hends : ∀ x ∈ body, x.kind ≠ .eof) (hnumbers : ∀ x ∈ body, x.Readable) :
    ∃ t, s.Takes (body.map (·.kind)) t ∧ s.Reaches t [] rest := by
  induction body generalizing s with
  | nil => exact ⟨s, .nil s, .refl hs he⟩
  | cons x body ih =>
    obtain ⟨hx, hends⟩ := List.forall_mem_cons.mp hends
    obtain ⟨hreadable, hnumbers⟩ := List.forall_mem_cons.mp hnumbers
    have hnext := (Reaches.refl hs he).advance hx
    obtain ⟨t, ht, hreaches⟩ := ih hnext.ending hnext.tokens hends hnumbers
    refine ⟨t, ?_, hnext.trans hreaches⟩
    rw [List.map_cons, ← kind_of_tokens hs]
    exact .cons (by rwa [kind_of_tokens hs]) (by rwa [current_of_tokens hs]) ht

theorem Takes.readable (h : s.Takes (body.map (·.kind)) t) (he : s.ending.kind = .eof)
    (hs : s.tokens = body ++ rest) : ∀ x ∈ body, x.Readable := by
  induction body generalizing s with
  | nil => simp
  | cons x body ih =>
    rw [List.map_cons, ← kind_of_tokens hs] at h
    cases h with
    | cons notEnd readable later =>
      have hnext := (Reaches.refl hs he).advance (kind_of_tokens hs ▸ notEnd)
      exact List.forall_mem_cons.mpr
        ⟨current_of_tokens hs ▸ readable, ih later hnext.ending hnext.tokens⟩

end ParserState

/-- Whether there are errors does not depend on how many are asked for. -/
theorem ParsedFile.errors_eq_nil_iff (tokens : List Token) (options : ParseOptions) :
    (ParsedFile.ofTokens tokens options).errors = [] ↔
      (ParsedFile.read (.ofTokens tokens 0)).2.problems = #[] := by
  have hstart : (ParserState.ofTokens tokens options.maxErrors).halted = false := by
    simp only [ParserState.halted, ParserState.ofTokens]
    grind
  have habreast := ParsedFile.abreast_read hstart
  change AbreastWith _ (ParsedFile.read (.ofTokens tokens 0)) at habreast
  have herrors : (ParsedFile.ofTokens tokens options).errors = [] ↔
      (ParsedFile.read (.ofTokens tokens options.maxErrors)).2.problems = #[] := by
    simp [ParsedFile.ofTokens]
  rw [herrors]
  cases habreast with
  | level same notHalted =>
    rw [same]
    rfl
  | cut hcut =>
    -- The cap is not zero, so both parses have found a problem.
    have hsize := hcut.full
    have hpositive := hcut.capped
    have hle := hcut.isPrefix.length_le
    simp only [Array.length_toList] at hle
    rw [← Array.size_eq_zero_iff, ← Array.size_eq_zero_iff]
    omega

/-- The loop over items goes on where parsing resumes behind an item. -/
theorem FileParts.leads_runItems_resumed (f : FileParts) (hreads : Reads s) :
    (itemLine f s).resumed.Leads (f.runItems s).2 := by
  have hnext : (f.readItem s).2.Leads (f.nextItem s).2 := by
    unfold nextItem
    dsimp only
    split_ifs
    · exact leads_advance _
    · exact .refl
  rw [readItem_eq hreads.notNewline] at hnext
  rw [runItems_next hreads.notEnd hreads.notHalted]
  exact hnext.trans (leads_readItems _ _ _)

/-- The loop over items goes on behind an item. -/
theorem FileParts.leads_runItems_line (f : FileParts) (hreads : Reads s) :
    (itemLine f s).state.Leads (f.runItems s).2 :=
  (leads_resumed _).trans (leads_runItems_resumed f hreads)

namespace Surroundings

/-- The document with the body is parsed without an error. -/
def Accepts {form : SectionForm} (D : Surroundings form) (options : ParseOptions)
    (body : List Token) : Prop := (ParsedFile.ofTokens (D.tokens body) options).errors = []

/-- What stands around the body is valid: there are lines with which the document is parsed
without an error. -/
def ValidAround {form : SectionForm} (D : Surroundings form) (options : ParseOptions) : Prop :=
  ∃ body, LogicalLines (body.map (·.kind)) ∧ D.Accepts options body

/-- What is left of a document behind the body. -/
def behind {form : SectionForm} (D : Surroundings form) : List Token :=
  D.close :: (D.after ++ D.agentClose :: (D.back ++ [D.ending]))

variable {D : Surroundings .flow}

/-- A flow ends where the lines of its body do. -/
theorem flow_of_tokens (o : Opening .flow) (he : t.ending.kind = .eof)
    (ht : t.tokens = o.tokens ++ rest) :
    ∃ s, t.Reaches s [] rest ∧ ∀ rules u, s.runLines (.item Parser.flowRule) [] = (rules, u) →
      ∃ f, Parser.flowSection t = .ok f u := by
  obtain ⟨name, s, hs, hflow⟩ : ∃ name s, t.Reaches s [] rest ∧
      Parser.flowSection t = (Parser.blockLines (.item Parser.flowRule) [] >>= fun rules =>
        Parser.spanFrom o.keyword.start >>= fun location =>
          pure (Flow.mk name rules (some location))) s :=
    Parser.header_of_tokens o (Parser.takesName_takeName "flow name" (.inr rfl))
      "':' after flow name" he ht
  refine ⟨s, hs, fun rules u hrules => ?_⟩
  have hblock : Parser.blockLines (.item Parser.flowRule) [] s = .ok rules u := by
    rw [Parser.blockLines_eq, ← runLines, hrules]
  exact ⟨_, hflow.trans (Parser.bind_of_ok _ hblock)⟩

/-- All that is found in the body of the flow is found in the block of the agent. -/
theorem exists_body_of_flow (parts : AgentParts) (he : t.ending.kind = .eof) (hcap : t.cap = 0)
    (ht : t.tokens = D.opening.tokens ++ (body ++ D.behind)) :
    ∃ s, t.Reaches s [] (body ++ D.behind) ∧
      (s.runLines (.item Parser.flowRule) []).2.Leads (t.runLines partLine parts).2 := by
  obtain ⟨s, hs, hflow⟩ := flow_of_tokens D.opening he ht
  obtain ⟨f, hf⟩ := hflow _ _ rfl
  have hpart : LineParser.whole Parser.agentPart parts t = _ :=
    LineParser.whole_of_ok (Parser.agentPart_flow (D.opening.kind_eq ht) hf)
  have hlater : (LineParser.whole Parser.agentPart parts t).resumed.Leads
      (t.runLines partLine parts).2 :=
    Parser.leads_runLines_resumed (D.opening.reads he hcap ht) parts
  rw [hpart] at hlater
  exact ⟨s, hs, hlater⟩

/-- All that is found in the body of the flow is found in the file from the agent on. -/
theorem exists_body_of_agent (f : FileParts) (he : t.ending.kind = .eof) (hcap : t.cap = 0)
    (ht : t.tokens = D.agentTokens body ++ (D.back ++ [D.ending])) :
    ∃ s found, t.Reaches s found (body ++ D.behind) ∧
      (s.runLines (.item Parser.flowRule) []).2.Leads (f.runItems t).2 := by
  have hheader : t.tokens = D.agent.tokens ++ (D.before ++ (D.sectionTokens body ++
      (D.after ++ D.agentClose :: (D.back ++ [D.ending])))) := by
    rw [ht, agentTokens]
    simp only [List.append_assoc, List.singleton_append]
  obtain ⟨u, hu, hagent⟩ := Parser.agent_of_tokens D.agent he hheader
  have hpart : partLine.Completes
      (fun s => s.kind = .keyword (.opening .flow) → SectionForm.flow = .flow)
      (AgentParts.Related Eq Eq) := by
    apply Parser.completes_agentPart (K := fun k => k = .keyword (.opening .flow) → _)
    · rintro fs _ f rfl
      rfl
    · exact fun _ m m' h => Parser.same_section h
  obtain ⟨v, parts, hparts, -, hv⟩ := run_body (g := .empty) (lineLoop_runLines partLine) hpart
    Parser.refuses_agentPart D.beforeLines head_sectionTokens hu.ending (hu.cap.trans hcap)
    hu.tokens (Parser.related_eq_iff.mpr rfl)
  have hcapv := hv.cap.trans (hu.cap.trans hcap)
  obtain ⟨s, hs, hflow⟩ :=
    exists_body_of_flow parts hv.ending hcapv (hv.tokens.trans sectionTokens_append)
  obtain ⟨name, location, hread⟩ := hagent _ _ hparts
  have hkind : t.kind = .keyword (.opening .agent) := D.agent.kind_eq hheader
  have hafter : (Parser.agent.after t).Leads (f.runItems t).2 :=
    (FileParts.leads_itemLine_agent f hkind).trans
      (FileParts.leads_runItems_line f (D.agent.reads he hcap hheader))
  rw [Parser.after, hread] at hafter
  exact ⟨s, _, hu.trans (hv.trans hs), hflow.trans hafter⟩

/-- All that is found in the body of the flow is found in the document. -/
theorem exists_body (D : Surroundings .flow) (body : List Token) :
    ∃ s : ParserState, s.ending.kind = .eof ∧ s.cap = 0 ∧ s.tokens = body ++ D.behind ∧
      (s.runLines (.item Parser.flowRule) []).2.Leads
        (ParsedFile.read (.ofTokens (D.tokens body) 0)).2 := by
  have hfront : FileParts.itemLine.Completes (fun s => s.kind ≠ .keyword (.opening .agent))
      (FileParts.Related Eq) :=
    FileParts.completes_itemLine (K := fun k => k ≠ .keyword (.opening .agent))
      fun hk => absurd rfl hk
  have htokens : (ofTokens (D.tokens body) 0).tokens = D.tokens body := tokens_document
  obtain ⟨t, f, hitems, -, ht⟩ := run_body (g := .empty) FileParts.lineLoop_runItems hfront
    FileParts.refuses_itemLine D.frontLines head_agentTokens (ending_kind_ofTokens _ 0) rfl
    htokens ⟨rfl, rfl, rfl⟩
  obtain ⟨s, found, hs, hagent⟩ := exists_body_of_agent f ht.ending ht.cap ht.tokens
  have hread := ParsedFile.leads_read_items (ofTokens (D.tokens body) 0)
  rw [← FileParts.runItems, hitems] at hread
  exact ⟨s, hs.ending, hs.cap.trans ht.cap, hs.tokens, hagent.trans hread⟩

/-- A body with which there are no errors is a sentence, and its numbers can be read. -/
theorem mem_of_accepts {options : ParseOptions} (hbody : LogicalLines (body.map (·.kind)))
    (h : D.Accepts options body) :
    body.map (·.kind) ∈ FlowGrammar.body ∧ ∀ x ∈ body, x.Readable := by
  rw [Accepts, ParsedFile.errors_eq_nil_iff] at h
  obtain ⟨s, he, hcap, hs, hleads⟩ := exists_body D body
  have hlines : s.Leads (s.runLines (.item Parser.flowRule) []).2 := leads_lines _ _ _ _
  have hstart : s.problems = #[] := by
    have hle := (hlines.trans hleads).problems_isPrefix
    rw [h] at hle
    simpa using hle
  have hnone := Parser.problems_eq_of_leads hlines hleads (h.trans hstart.symm)
  have hupcoming : s.upcoming = body.map (·.kind) ++ D.behind.map (·.kind) := by
    rw [upcoming, hs, List.map_append]
  have hnext : (D.behind.map (·.kind)).head? ≠ some .indent := by simp [behind, D.closes.kind_eq]
  obtain ⟨hmem, t, items, ht, -⟩ :=
    Parser.readsLines_flowRule.mem_of_noProblems hbody he hcap hupcoming hnext hnone
  exact ⟨hmem, ht.readable he hs⟩

/-- A sentence is passed as the body of the flow. -/
theorem passes_of_mem (D : Surroundings .flow) (hbody : LogicalLines (body.map (·.kind)))
    (hmem : body.map (·.kind) ∈ FlowGrammar.body) (hnumbers : ∀ x ∈ body, x.Readable) :
    D.Passes body (AgentParts.Related Eq Eq)
      (AgentParts.Related Eq fun fs later =>
        ∃ f, fs = D.partsBefore.flows ++ f :: later ∧ True)
      { D.partsBefore with flows := [] } [] := by
  refine passes_of_flowSection (R := fun _ => True) D fun t rest he hcap ht => ?_
  obtain ⟨s, hs, hflow⟩ := flow_of_tokens D.opening he ht
  have hends : ∀ x ∈ body, x.kind ≠ .eof := fun x hx => hbody.ne_eof _ (List.mem_map_of_mem hx)
  obtain ⟨u, hu, hreaches⟩ := exists_takes hs.ending hs.tokens hends hnumbers
  have hdedent : u.kind = .dedent := (kind_of_tokens hreaches.tokens).trans D.closes.kind_eq
  obtain ⟨rules, hrun⟩ := Parser.readsLines_flowRule.runLines_of_mem [] hs.ending
    (hs.cap.trans hcap) hmem hu (by simp [hdedent])
  rw [runLines_dedent hdedent] at hrun
  obtain ⟨f, hf⟩ := hflow _ _ hrun
  exact ⟨f, u.advance, hf, trivial, hs.trans (hreaches.advance (D.closes.ne_eof (by decide)))⟩

/-- In a document that is valid around the body of a flow, the lines without errors are the
sentences of the grammar. -/
theorem accepts_iff_mem_body (D : Surroundings .flow) (options : ParseOptions)
    (haround : D.ValidAround options) (hbody : LogicalLines (body.map (·.kind)))
    (hnumbers : ∀ x ∈ body, x.Readable) :
    D.Accepts options body ↔ body.map (·.kind) ∈ FlowGrammar.body := by
  refine ⟨fun h => (mem_of_accepts hbody h).1, fun hmem => ?_⟩
  have herrors {body : List Token} (hbody : LogicalLines (body.map (·.kind)))
      (hmem : body.map (·.kind) ∈ FlowGrammar.body) (hnumbers : ∀ x ∈ body, x.Readable) :
      D.Accepts options body ↔
        D.problemsBefore ++ D.problemsAfter { D.partsBefore with flows := [] } = [] := by
    obtain ⟨-, -, -, -, -, h⟩ := document_of_passes (D.passes_of_mem hbody hmem hnumbers) none
    rw [Accepts, ParsedFile.errors_eq_nil_iff, ← ParsedFile.errors_eq_nil_iff _ ⟨none, 0⟩,
      ← document, h, List.map_eq_nil_iff, List.nil_append]
  obtain ⟨valid, hvalid, haccepts⟩ := haround
  obtain ⟨hvalidMem, hvalidNumbers⟩ := mem_of_accepts hvalid haccepts
  rw [herrors hbody hmem hnumbers, ← herrors hvalid hvalidMem hvalidNumbers]
  exact haccepts

end Surroundings

/-- The rule `Start -> when`, and below it `when (1, b.c,) -> :done with key: null`. -/
def keywordRule : List Token :=
  [.unplaced .properWord "Start", .unplaced .arrow "->", .unplaced (.keyword .whenWord) "when",
    .mark .newline .origin, .mark .indent .origin, .unplaced (.keyword .whenWord) "when",
    .unplaced (.opening .paren) "(", .unplaced .number "1", .unplaced .comma ",",
    .unplaced .commonNoun "b", .unplaced .dot ".", .unplaced .commonNoun "c", .unplaced .comma ",",
    .unplaced (.closing .paren) ")", .unplaced .arrow "->", .unplaced .atom ":done",
    .unplaced (.keyword .withWord) "with", .unplaced .commonNoun "key", .unplaced .colon ":",
    .unplaced (.literal .null) "null", .mark .newline .origin, .mark .dedent .origin]

/-- The rule `Start -> ->`. -/
def danglingRule : List Token :=
  [.unplaced .properWord "Start", .unplaced .arrow "->", .unplaced .arrow "->",
    .mark .newline .origin]

/-- A sentence that is read without an error, and an error where there is no sentence. -/
theorem Surroundings.accepts_iff_mem_body_keywordRule :
    (alone .flow).ValidAround .standard ∧ keywordRule.map (·.kind) ∈ FlowGrammar.body ∧
      danglingRule.map (·.kind) ∉ FlowGrammar.body := by
  have haccepts : (alone .flow).Accepts .standard keywordRule := by
    unfold Accepts
    decide +kernel
  have hrefuses : ¬ (alone .flow).Accepts .standard danglingRule := by
    unfold Accepts
    decide +kernel
  have hkeyword : LogicalLines (keywordRule.map (·.kind)) :=
    show LogicalLines ([.properWord, .arrow, .keyword .whenWord] ++ .newline :: .indent ::
      (([.keyword .whenWord, .opening .paren, .number, .comma, .commonNoun, .dot, .commonNoun,
        .comma, .closing .paren, .arrow, .atom, .keyword .withWord, .commonNoun, .colon,
        .literal .null] ++ .newline :: []) ++ .dedent :: [])) from
      .block (by decide) (.line (by decide) .nil) .nil
  have hdangling : LogicalLines (danglingRule.map (·.kind)) :=
    show LogicalLines ([.properWord, .arrow, .arrow] ++ .newline :: []) from
      .line (by decide) .nil
  have haround : (alone .flow).ValidAround .standard := ⟨keywordRule, hkeyword, haccepts⟩
  have hnumbers : ∀ x ∈ keywordRule, x.Readable := by
    unfold Token.Readable
    decide +kernel
  refine ⟨haround,
    (accepts_iff_mem_body (alone .flow) .standard haround hkeyword hnumbers).mp haccepts, ?_⟩
  intro hmem
  refine hrefuses ((accepts_iff_mem_body (alone .flow) .standard haround hdangling ?_).mpr hmem)
  unfold Token.Readable
  decide

end AgentScript
