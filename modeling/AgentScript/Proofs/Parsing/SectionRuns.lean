import AgentScript.Proofs.Parsing.FileLines

/-!
# What a section reads

Behind its header a section reads the block. It gathers what the body of the block gives by
itself, finds the problems of that body, and ends where the block ends.
-/
namespace AgentScript

open ParserState

/-- The name in the header of a section, which an agent and a flow cannot do without. -/
inductive IsSectionName (form : SectionForm) : List Token → Prop
  | given {name : Token} (word : name.kind.isWordlike = true) : IsSectionName form [name]
  | leftOut (notAgent : form ≠ .agent) (notFlow : form ≠ .flow) : IsSectionName form []

/-- The header of a section and the beginning of its block. -/
structure Opening (form : SectionForm) where
  keyword : Token
  name : List Token
  colon : Token
  newline : Token
  indent : Token
  opens : keyword.kind = .keyword (.opening form)
  named : IsSectionName form name
  closes : colon.kind = .colon
  ends : newline.IsMark .newline
  deepens : indent.IsMark .indent

namespace Opening

variable {form : SectionForm}

def tokens (o : Opening form) : List Token :=
  o.keyword :: (o.name ++ [o.colon, o.newline, o.indent])

theorem tokens_append (o : Opening form) (rest : List Token) :
    o.tokens ++ rest = o.keyword :: (o.name ++ o.colon :: o.newline :: o.indent :: rest) := by
  simp [tokens]

theorem keyword_ne (o : Opening form) {k : TokenKind} (hk : k.isStructural = true) :
    o.keyword.kind ≠ k := by
  intro h
  rw [← h, o.opens] at hk
  exact nomatch hk

theorem kind_eq {s : ParserState} {rest : List Token} (o : Opening form)
    (h : s.tokens = o.tokens ++ rest) : s.kind = .keyword (.opening form) := by
  rw [o.tokens_append] at h
  rw [kind_of_tokens h, o.opens]

/-- Where a header is, a line is read. -/
theorem reads {s : ParserState} {rest : List Token} (o : Opening form)
    (he : s.ending.kind = .eof) (hcap : s.cap = 0) (h : s.tokens = o.tokens ++ rest) : Reads s := by
  refine reads_of_beginsLine he (halted_of_uncapped hcap) (.inl ?_)
  rw [o.kind_eq h]
  rfl

end Opening

variable {α β γ δ : Type} {form : SectionForm} {s t : ParserState} {body rest : List Token}
  {dedent : Token}

namespace Parser

/-- The parser takes the name in the header of a section. -/
def TakesName (form : SectionForm) (p : Parser α) : Prop :=
  ∀ ⦃s : ParserState⦄ ⦃name rest : List Token⦄ ⦃colon : Token⦄, IsSectionName form name →
    colon.kind = .colon → s.ending.kind = .eof → s.tokens = name ++ colon :: rest →
    ∃ a t, p s = .ok a t ∧ s.Reaches t [] (colon :: rest)

theorem takeName_of_word {what : String} (h : s.kind.isWordlike = true) :
    takeName what s = .ok s.current.text s.advance := by
  unfold takeName
  rw [bind_of_ok _ (rfl : kind s = .ok s.kind s), if_pos h]
  rfl

theorem reaches_word {word : Token} {rest : List Token} (hword : word.kind.isStructural = false)
    (he : s.ending.kind = .eof) (h : s.tokens = word :: rest) : s.Reaches s.advance [] rest :=
  (Reaches.refl h he).advance (Token.ne_of_word hword rfl)

theorem takesName_takeName (what : String) (hform : form = .agent ∨ form = .flow) :
    TakesName form (takeName what) := by
  intro s name rest colon hname _ he h
  cases hname with
  | given word =>
    have hk : s.kind.isWordlike = true := by rwa [kind_of_tokens h]
    exact ⟨_, _, takeName_of_word hk, reaches_word (isStructural_of_isWordlike word) he h⟩
  | leftOut notAgent notFlow =>
    rcases hform with hagent | hflow
    · exact absurd hagent notAgent
    · exact absurd hflow notFlow

theorem takesName_takeSectionName (what : String) : TakesName form (takeSectionName what) := by
  intro s name rest colon hname hcolon he h
  unfold takeSectionName
  rw [check_bind_apply]
  cases hname with
  | given word =>
    have hk : s.kind.isWordlike = true := by rwa [kind_of_tokens h]
    have hne : s.kind ≠ .colon := by
      intro hc
      rw [hc] at hk
      exact nomatch hk
    rw [if_neg hne, bind_of_ok _ (takeName_of_word hk)]
    exact ⟨_, _, rfl, reaches_word (isStructural_of_isWordlike word) he h⟩
  | leftOut =>
    rw [if_pos ((kind_of_tokens h).trans hcolon)]
    exact ⟨none, s, rfl, .refl h he⟩

/-- The line ends and a block begins. -/
theorem block_of_tokens (line : LineParser α) (gathered : α) {newline indent : Token}
    (hnewline : newline.IsMark .newline) (hindent : indent.IsMark .indent)
    (he : s.ending.kind = .eof) (h : s.tokens = newline :: indent :: rest) :
    ∃ t, s.Reaches t [] rest ∧ block line gathered s = blockLines line gathered t := by
  have hfirst := (Reaches.refl h he).advance (hnewline.ne_eof (by decide))
  have hk : s.kind = .newline := (kind_of_tokens h).trans hnewline.kind_eq
  have hk' : s.advance.kind = .indent := (kind_of_tokens hfirst.tokens).trans hindent.kind_eq
  refine ⟨s.advance.advance, hfirst.advance (hindent.ne_eof (by decide)), ?_⟩
  unfold block
  rw [bind_of_ok _ (finishLine_of_newline hk), eat_bind_eq, check_bind_apply, if_pos hk']
  rfl

/-- A parser that begins with a header goes on in the block. -/
theorem header_of_tokens (o : Opening form) {name : Parser α} (hname : TakesName form name)
    (what : String) {line : LineParser β} {gathered : β} {f : Token → α → β → Parser γ}
    (he : s.ending.kind = .eof) (h : s.tokens = o.tokens ++ rest) :
    ∃ a t, s.Reaches t [] rest ∧
      (advance >>= fun k => name >>= fun a => expect .colon what >>= fun _ =>
        block line gathered >>= f k a) s = (blockLines line gathered >>= f o.keyword a) t := by
  rw [o.tokens_append] at h
  have hk := current_of_tokens h
  have hkeyword := (Reaches.refl h he).advance (o.keyword_ne rfl)
  obtain ⟨a, t, ht, hreaches⟩ := hname o.named o.closes hkeyword.ending hkeyword.tokens
  have hcolon : t.kind = .colon := (kind_of_tokens hreaches.tokens).trans o.closes
  have hexpect : expect .colon what t = .ok t.current t.advance := by
    unfold expect
    rw [check_bind_apply, if_pos hcolon]
    rfl
  have hbehind := hreaches.advance (by simp [o.closes])
  obtain ⟨u, hu, hblock⟩ := block_of_tokens line gathered o.ends o.deepens hbehind.ending
    hbehind.tokens
  refine ⟨a, u, hkeyword.trans (hbehind.trans hu), ?_⟩
  rw [bind_of_ok _ (rfl : advance s = .ok s.current s.advance), hk, bind_of_ok _ ht,
    bind_of_ok _ hexpect]
  exact bind_congr_left hblock _

/-- A section gathers the items of its body and finds the problems of that. -/
theorem itemSection_of_tokens {p : Parser β} [Proceeds p] (h : p.Completes fun _ => True)
    (h' : p.Refuses) (o : Opening form) {name : Parser α} (hname : TakesName form name)
    (what : String) (make : α → List β → Location → γ) (hbody : IsBody body)
    (hdedent : dedent.IsMark .dedent) (he : s.ending.kind = .eof) (hcap : s.cap = 0)
    (htokens : s.tokens = o.tokens ++ (body ++ dedent :: rest)) :
    ∃ a location t,
      (advance >>= fun k => name >>= fun a => expect .colon what >>= fun _ =>
        block (.item p) [] >>= fun items => spanFrom k.start >>= fun location =>
          pure (make a items location)) s = .ok (make a (bodyItems p body) location) t ∧
      s.Reaches t (itemProblems p body) rest := by
  obtain ⟨a, t, hreaches, ht⟩ := header_of_tokens (f := fun k a items =>
    spanFrom k.start >>= fun location => pure (make a items location)) o hname what he htokens
  obtain ⟨u, hu, hreachesu⟩ := runLines_itemBlock h h' hbody hdedent hreaches.ending
    (hreaches.cap.trans hcap) hreaches.tokens []
  have hblock : blockLines (.item p) [] t = .ok (bodyItems p body) u := by
    rw [blockLines_eq, ← runLines, hu]
    rfl
  refine ⟨a, u.spanFrom o.keyword.start, u, ?_, hreaches.trans hreachesu⟩
  rw [ht, bind_of_ok _ hblock]
  rfl

theorem messageSection_of_tokens (o : Opening .messages) (hbody : IsBody body)
    (hdedent : dedent.IsMark .dedent) (he : s.ending.kind = .eof) (hcap : s.cap = 0)
    (h : s.tokens = o.tokens ++ (body ++ dedent :: rest)) :
    ∃ m t, messageSection s = .ok m t ∧ m.messages = bodyItems message body ∧
      s.Reaches t (itemProblems message body) rest := by
  obtain ⟨name, location, t, ht, hreaches⟩ := itemSection_of_tokens completes_message
    refuses_message o (takesName_takeSectionName _) "':'"
    (fun name messages location => MessageSection.mk name messages (some location)) hbody hdedent he
    hcap h
  exact ⟨_, t, ht, rfl, hreaches⟩

theorem flowSection_of_tokens (o : Opening .flow) (hbody : IsBody body)
    (hdedent : dedent.IsMark .dedent) (he : s.ending.kind = .eof) (hcap : s.cap = 0)
    (h : s.tokens = o.tokens ++ (body ++ dedent :: rest)) :
    ∃ f t, flowSection s = .ok f t ∧ f.rules = bodyItems flowRule body ∧
      s.Reaches t (itemProblems flowRule body) rest := by
  obtain ⟨name, location, t, ht, hreaches⟩ := itemSection_of_tokens completes_flowRule
    refuses_flowRule o (takesName_takeName _ (.inr rfl)) "':' after flow name"
    (fun name rules location => Flow.mk name rules (some location)) hbody hdedent he hcap h
  exact ⟨_, t, ht, rfl, hreaches⟩

theorem agentPart_messages {p : AgentParts} {m : MessageSection}
    (hk : s.kind = .keyword (.opening .messages)) (hnone : p.messages = none)
    (h : messageSection s = .ok m t) : agentPart p s = .ok { p with messages := some m } t := by
  unfold agentPart
  rw [bind_of_ok _ (rfl : peek s = .ok s.current s), ← ParserState.kind, hk]
  dsimp only
  rw [bind_of_ok _ h, hnone]
  rfl

theorem agentPart_flow {p : AgentParts} {f : Flow} (hk : s.kind = .keyword (.opening .flow))
    (h : flowSection s = .ok f t) : agentPart p s = .ok { p with flows := p.flows ++ [f] } t := by
  unfold agentPart
  rw [bind_of_ok _ (rfl : peek s = .ok s.current s), ← ParserState.kind, hk]
  dsimp only
  rw [bind_of_ok _ h]
  rfl

/-- Behind a part of an agent the next one is read. -/
theorem runLines_agentPart {p p' : AgentParts} {found : List ParseProblem} (o : Opening form)
    {middle : List Token} (hcap : s.cap = 0) (he : s.ending.kind = .eof)
    (h : s.tokens = o.tokens ++ (middle ++ rest)) (hpart : agentPart p s = .ok p' t)
    (hreaches : s.Reaches t found rest) :
    s.runLines (.whole agentPart) p = t.runLines (.whole agentPart) p' := by
  have hreads := o.reads he hcap h
  rw [o.tokens_append] at h
  have hline : LineParser.whole agentPart p s = ⟨p', none, t⟩ := by
    unfold LineParser.whole
    rw [hpart]
  have hlt : t.remaining < s.remaining := by
    have hs := remaining_of_tokens h
    have ht := remaining_of_tokens hreaches.tokens
    simp only [List.length_cons, List.length_append] at hs
    omega
  exact (lineLoop_runLines _).done _ _ _ _ hreads hline hlt

/-- An agent puts together what the lines of its block give. -/
theorem agent_of_tokens (o : Opening .agent) (he : s.ending.kind = .eof)
    (h : s.tokens = o.tokens ++ rest) :
    ∃ t, s.Reaches t [] rest ∧ ∀ parts u, t.runLines (.whole agentPart) .empty = (parts, u) →
      ∃ name location, agent s = .ok (.ofParts name parts location) u := by
  obtain ⟨name, t, hreaches, ht⟩ := header_of_tokens (f := fun k name parts =>
    spanFrom k.start >>= fun location => pure (Agent.ofParts name parts location)) o
    (takesName_takeName "agent name" (.inl rfl)) "':' after agent name" he h
  refine ⟨t, hreaches, fun parts u hparts => ?_⟩
  have hblock : blockLines (.whole agentPart) .empty t = .ok parts u := by
    rw [blockLines_eq, ← runLines, hparts]
  refine ⟨name, u.spanFrom o.keyword.start, ht.trans ?_⟩
  rw [bind_of_ok _ hblock]
  rfl

end Parser

end AgentScript
