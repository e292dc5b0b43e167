import AgentScript.Document
import AgentScript.Proofs.Parsing.SectionRuns

/-!
# Documents read line by line

In the block of a section each line is parsed by itself. So a broken line costs nothing but
itself and the block below it: in whatever document the section stands, its body gives the
items and the errors of the parts that it is put together from.
-/
namespace AgentScript

open ParserState

/-- The tokens of a document around the body of a section. The agent is the first one, and if
the section may only occur once, it is the first of its form. -/
structure Surroundings (form : SectionForm) where
  /-- The lines before the agent. -/
  front : List Token
  agent : Opening .agent
  /-- The lines of the agent before the section. -/
  before : List Token
  opening : Opening form
  close : Token
  /-- The lines of the agent behind the section. -/
  after : List Token
  agentClose : Token
  /-- The lines behind the agent. -/
  back : List Token
  ending : Token
  frontLines : LinesOf (fun k => k ≠ .keyword (.opening .agent)) front
  beforeLines : LinesOf (fun k => k = .keyword (.opening form) → form = .flow) before
  afterLines : IsBody after
  backLines : IsBody back
  closes : close.IsMark .dedent
  agentCloses : agentClose.IsMark .dedent
  ends : ending.kind = .eof

/-- The lines of an agent. -/
abbrev partLine : LineParser AgentParts := .whole Parser.agentPart

namespace ParsedFile

/-- The agent of a text, if one has been read. -/
def agent (p : ParsedFile) : Option Agent := p.tree.bind (·.agent)

/-- The messages section of the agent has these messages. -/
def HasMessages (p : ParsedFile) (messages : List Message) : Prop :=
  ∃ a m, p.agent = some a ∧ a.messages = some m ∧ m.messages = messages

/-- Between the other flows of the agent stands one with these rules. -/
def HasRules (earlier later : List Flow) (p : ParsedFile) (rules : List FlowRule) : Prop :=
  ∃ a f, p.agent = some a ∧ a.flows = earlier ++ f :: later ∧ f.rules = rules

end ParsedFile

/-- The errors found among the items of a body. -/
def bodyErrors {α : Type} (p : Parser α) (file : Option String) (body : List Token) :
    List ParseError :=
  (itemProblems p body).map (·.toError file)

namespace Surroundings

variable {form : SectionForm} (D : Surroundings form)

/-- The tokens of the section, and of the agent behind it. -/
def sectionTokens (body : List Token) : List Token := D.opening.tokens ++ (body ++ [D.close])

def agentTokens (body : List Token) : List Token :=
  D.agent.tokens ++ (D.before ++ (D.sectionTokens body ++ (D.after ++ [D.agentClose])))

/-- The tokens of the document. -/
def tokens (body : List Token) : List Token :=
  D.front ++ (D.agentTokens body ++ (D.back ++ [D.ending]))

/-- The document with all errors, whatever their number. -/
def document (file : Option String) (body : List Token) : ParsedFile :=
  .ofTokens (D.tokens body) ⟨file, 0⟩

/-- What the agent has before the section. -/
def partsBefore : AgentParts := bodyGathered partLine .empty D.before

def problemsBefore : List ParseProblem :=
  bodyProblems FileParts.itemLine .empty D.front ++ bodyProblems partLine .empty D.before

/-- What an agent with the given parts in the place of the section has behind it. -/
def partsAfter (instead : AgentParts) : AgentParts := bodyGathered partLine instead D.after

/-- The file behind the agent, with any agent for it: what stands there is the same behind all. -/
def fileInstead : FileParts :=
  ⟨(bodyGathered FileParts.itemLine .empty D.front).imports, some default, true⟩

def problemsAfter (instead : AgentParts) : List ParseProblem :=
  bodyProblems partLine instead D.after ++ bodyProblems FileParts.itemLine D.fileInstead D.back

/-- How an agent passes the section with the body. The parts before and behind it are told from
those of a parse in which the given parts stand for the section. -/
structure Passes (body : List Token) (G G' : AgentParts → AgentParts → Prop) (instead : AgentParts)
    (found : List ParseProblem) : Prop where
  before : partLine.Completes (fun s => s.kind = .keyword (.opening form) → form = .flow) G
  after : partLine.Completes (fun _ => True) G'
  start : G .empty .empty
  pass : ∀ s p rest, G p D.partsBefore → s.ending.kind = .eof → s.cap = 0 →
    s.tokens = D.sectionTokens body ++ rest →
    ∃ t p', Parser.agentPart p s = .ok p' t ∧ G' p' instead ∧ s.Reaches t found rest

variable {D} {body rest : List Token} {G G' : AgentParts → AgentParts → Prop} {instead : AgentParts}
  {found : List ParseProblem} {s : ParserState}

theorem sectionTokens_append :
    D.sectionTokens body ++ rest = D.opening.tokens ++ (body ++ D.close :: rest) := by
  rw [sectionTokens]
  simp only [List.append_assoc, List.singleton_append]

theorem head_sectionTokens : ∀ t ∈ (D.sectionTokens body ++ rest).head?, t.kind ≠ .indent := by
  rw [sectionTokens_append, D.opening.tokens_append]
  simpa using D.opening.keyword_ne rfl

theorem head_agentTokens : ∀ t ∈ (D.agentTokens body ++ rest).head?, t.kind ≠ .indent := by
  rw [agentTokens, List.append_assoc, D.agent.tokens_append]
  simpa using D.agent.keyword_ne rfl

/-- The block of the agent. -/
theorem runLines_agent (hpass : D.Passes body G G' instead found) (he : s.ending.kind = .eof)
    (hcap : s.cap = 0) (h : s.tokens =
      D.before ++ (D.sectionTokens body ++ (D.after ++ D.agentClose :: rest))) :
    ∃ parts t, s.runLines partLine .empty = (parts, t) ∧ G' parts (D.partsAfter instead) ∧
      s.Reaches t (bodyProblems partLine .empty D.before ++
        (found ++ bodyProblems partLine instead D.after)) rest := by
  have hdedent : ∀ t ∈ (D.agentClose :: rest).head?, t.kind ≠ .indent := by
    simp [D.agentCloses.kind_eq]
  have hsection : ∀ (u : ParserState) p, G p D.partsBefore → u.ending.kind = .eof → u.cap = 0 →
      u.tokens = D.sectionTokens body ++ (D.after ++ D.agentClose :: rest) →
      ∃ v p', u.runLines partLine p = v.runLines partLine p' ∧ G' p' instead ∧
        u.Reaches v found (D.after ++ D.agentClose :: rest) := by
    intro u p hG hue hucap hu
    obtain ⟨v, p', hv, hG', hreaches⟩ := hpass.pass u p _ hG hue hucap hu
    refine ⟨v, p', ?_, hG', hreaches⟩
    rw [sectionTokens, List.append_assoc] at hu
    exact Parser.runLines_agentPart D.opening hucap hue hu hv hreaches
  obtain ⟨t, parts, ht, hG', hreaches⟩ := run_around (J := fun _ => True)
    (lineLoop_runLines partLine) hpass.before hpass.after Parser.refuses_agentPart D.beforeLines
    D.afterLines head_sectionTokens hdedent hsection he hcap h hpass.start
  have hkind := (kind_of_tokens hreaches.tokens).trans D.agentCloses.kind_eq
  exact ⟨parts, t.advance, by rw [ht, runLines_dedent hkind], hG',
    hreaches.advance (D.agentCloses.ne_eof (by decide))⟩

theorem readItem_agent {f : FileParts} {a : Agent} {t : ParserState}
    (hk : s.kind = .keyword (.opening .agent)) (hnone : f.agent = none)
    (h : Parser.agent s = .ok a t) :
    f.readItem s = ({ f with agent := some a, recognized := true }, t) := by
  unfold FileParts.readItem
  rw [hk]
  unfold FileParts.readAgent
  dsimp only
  rw [h, hnone]

/-- The agent is passed as an item of the file. -/
theorem runItems_agent {f : FileParts} (hpass : D.Passes body G G' instead found)
    (hnone : f.agent = none) (he : s.ending.kind = .eof) (hcap : s.cap = 0)
    (h : s.tokens = D.agentTokens body ++ rest) :
    ∃ t name parts location, f.runItems s =
        FileParts.runItems ⟨f.imports, some (.ofParts name parts location), true⟩ t ∧
      G' parts (D.partsAfter instead) ∧ s.Reaches t (bodyProblems partLine .empty D.before ++
        (found ++ bodyProblems partLine instead D.after)) rest := by
  have hsplit : s.tokens = D.agent.tokens ++ (D.before ++ (D.sectionTokens body ++
      (D.after ++ D.agentClose :: rest))) := by
    rw [h, agentTokens]
    simp only [List.append_assoc, List.singleton_append]
  obtain ⟨t, hreachest, hagent⟩ := Parser.agent_of_tokens D.agent he hsplit
  obtain ⟨parts, u, hrun, hG', hreachesu⟩ := runLines_agent hpass hreachest.ending
    (hreachest.cap.trans hcap) hreachest.tokens
  obtain ⟨name, location, hread⟩ := hagent parts u hrun
  have hreaches := hreachest.trans hreachesu
  have hitem := readItem_agent (D.agent.kind_eq hsplit) hnone hread
  rw [D.agent.tokens_append] at hsplit
  refine ⟨u, name, parts, location, ?_, hG', hreaches⟩
  apply FileParts.runItems_of_readItem _ _ hitem
  · have hs := remaining_of_tokens hsplit
    have hu := remaining_of_tokens hreaches.tokens
    simp only [List.length_cons, List.length_append] at hs
    omega
  · exact atEnd_of_tokens he hsplit (D.agent.keyword_ne rfl)
  · simp [halted, hcap]

/-- The agent of a document, told from its parts, beside any other agent. -/
def Stands (P : AgentParts → Prop) (a a' : Option Agent) : Prop :=
  (∃ name parts location, a = some (.ofParts name parts location) ∧ P parts) ∧ ∃ x, a' = some x

/-- The lines before the agent, the agent, and the lines behind it. -/
theorem runItems_document (hpass : D.Passes body G G' instead found) (he : s.ending.kind = .eof)
    (hcap : s.cap = 0) (h : s.tokens = D.tokens body) :
    ∃ t f name parts location, FileParts.empty.runItems s = (f, t) ∧
      f.agent = some (.ofParts name parts location) ∧ G' parts (D.partsAfter instead) ∧
      t.problems.toList = s.problems.toList ++
        (D.problemsBefore ++ (found ++ D.problemsAfter instead)) := by
  have hfront : FileParts.itemLine.Completes (fun s => s.kind ≠ .keyword (.opening .agent))
      (FileParts.Related fun a a' => a = none ∧ a' = none) :=
    FileParts.completes_itemLine (K := fun k => k ≠ .keyword (.opening .agent))
      fun hk => absurd rfl hk
  have hback : FileParts.itemLine.Completes (fun _ => True)
      (FileParts.Related (Stands fun parts => G' parts (D.partsAfter instead))) := by
    apply FileParts.completes_itemLine (K := fun _ => True)
    rintro - a a' ⟨⟨name, parts, location, ha, -⟩, x, hx⟩
    exact .inr ⟨_, x, ha, hx⟩
  have hending : ∀ t ∈ [D.ending].head?, t.kind ≠ .indent := by simp [D.ends]
  have hempty : FileParts.empty.Related (fun a a' => a = none ∧ a' = none) .empty :=
    ⟨rfl, ⟨rfl, rfl⟩, rfl⟩
  have hagent : ∀ (u : ParserState) f, FileParts.Related (fun a a' => a = none ∧ a' = none) f
      (bodyGathered FileParts.itemLine .empty D.front) → u.ending.kind = .eof → u.cap = 0 →
      u.tokens = D.agentTokens body ++ (D.back ++ [D.ending]) →
      ∃ v f', f.runItems u = FileParts.runItems f' v ∧
        FileParts.Related (Stands fun parts => G' parts (D.partsAfter instead)) f' D.fileInstead ∧
        u.Reaches v (bodyProblems partLine .empty D.before ++
          (found ++ bodyProblems partLine instead D.after)) (D.back ++ [D.ending]) := by
    intro u f hf hue hucap hu
    obtain ⟨v, name, parts, location, hv, hG', hreaches⟩ :=
      runItems_agent hpass hf.agent.1 hue hucap hu
    exact ⟨v, _, hv, ⟨hf.imports, ⟨⟨name, parts, location, rfl, hG'⟩, _, rfl⟩, rfl⟩, hreaches⟩
  obtain ⟨t, f, ht, hf, hreaches⟩ := run_around (J := fun _ => True) FileParts.lineLoop_runItems
    hfront hback FileParts.refuses_itemLine D.frontLines D.backLines head_agentTokens hending hagent
    he hcap h hempty
  obtain ⟨⟨name, parts, location, hagent, hG'⟩, -⟩ := hf.agent
  have hend : t.atEnd = true :=
    atEnd_of_remaining_eq_zero (by simpa using remaining_of_tokens hreaches.tokens)
  refine ⟨t, f, name, parts, location, ?_, hagent, hG', ?_⟩
  · rw [ht, FileParts.runItems_of_atEnd hend]
  · rw [hreaches.problems, problemsBefore, problemsAfter]
    simp only [List.append_assoc]

theorem tokens_document : (ofTokens (D.tokens body) 0).tokens = D.tokens body := by
  have hsplit : D.tokens body = (D.front ++ (D.agentTokens body ++ D.back)) ++ [D.ending] := by
    simp only [tokens, List.append_assoc]
  rw [hsplit]
  exact tokens_ofTokens D.ends 0

/-- The agent of the document has the parts of the section, and the errors are those of the
section between those of the lines around it. -/
theorem document_of_passes (hpass : D.Passes body G G' instead found)
    (file : Option String) :
    ∃ name parts location, (D.document file body).agent = some (.ofParts name parts location) ∧
      G' parts (D.partsAfter instead) ∧ (D.document file body).errors =
        (D.problemsBefore ++ (found ++ D.problemsAfter instead)).map (·.toError file) := by
  obtain ⟨t, f, name, parts, location, hrun, hagent, hG', hproblems⟩ :=
    runItems_document hpass (ending_kind_ofTokens _ 0) rfl tokens_document
  have hrecognized : f.recognized = true := by
    have h := FileParts.recognized_readItems (f := .empty) (fun h => absurd rfl h)
      (ofTokens (D.tokens body) 0).remaining (ofTokens (D.tokens body) 0)
    rw [← FileParts.runItems, hrun] at h
    exact h (by simp [hagent])
  have hread : ParsedFile.read (ofTokens (D.tokens body) 0) =
      (some ⟨f.imports, f.agent, some (t.spanFrom (ofTokens (D.tokens body) 0).current.start)⟩,
        t) := by
    unfold ParsedFile.read
    rw [← FileParts.runItems, hrun]
    simp [hrecognized, hagent]
  refine ⟨name, parts, location, ?_, hG', ?_⟩
  · rw [document, ParsedFile.ofTokens, hread]
    exact hagent
  · rw [document, ParsedFile.ofTokens, hread]
    exact congrArg (List.map (·.toError file)) hproblems

theorem passes_messages (D : Surroundings .messages) (hbody : IsBody body) :
    D.Passes body (AgentParts.Related (fun m m' => m = none ∧ m' = none) Eq)
      (AgentParts.Related (fun m m' =>
        (∃ n, m = some n ∧ n.messages = bodyItems Parser.message body) ∧
        ∃ n, m' = some n) Eq)
      { D.partsBefore with messages := some default } (itemProblems Parser.message body) := by
  constructor
  case before =>
    apply Parser.completes_agentPart (K := fun k => k = .keyword (.opening .messages) → _)
    · rintro fs _ f rfl
      rfl
    · exact fun hk => nomatch hk rfl
  case after =>
    apply Parser.completes_agentPart (K := fun _ => True)
    · rintro fs _ f rfl
      rfl
    · rintro - m m' ⟨⟨n, hn, -⟩, n', hn'⟩
      exact .inr ⟨n, n', hn, hn'⟩
  case start => exact ⟨rfl, rfl, rfl, rfl, rfl, rfl, rfl⟩
  case pass =>
    intro s p rest hG he hcap h
    rw [sectionTokens_append] at h
    obtain ⟨m, t, ht, hm, hreaches⟩ := Parser.messageSection_of_tokens D.opening hbody D.closes he
      hcap h
    exact ⟨t, _, Parser.agentPart_messages (D.opening.kind_eq h) hG.messages.1 ht,
      { hG with messages := ⟨⟨m, rfl, hm⟩, _, rfl⟩ }, hreaches⟩

/-- A document around a flow that is read in the same way wherever it stands. -/
theorem passes_of_flowSection (D : Surroundings .flow) {R : List FlowRule → Prop}
    (h : ∀ (s : ParserState) (rest : List Token), s.ending.kind = .eof → s.cap = 0 →
      s.tokens = D.opening.tokens ++ (body ++ D.close :: rest) →
      ∃ f t, Parser.flowSection s = .ok f t ∧ R f.rules ∧ s.Reaches t found rest) :
    D.Passes body (AgentParts.Related Eq Eq)
      (AgentParts.Related Eq fun fs later =>
        ∃ f, fs = D.partsBefore.flows ++ f :: later ∧ R f.rules)
      { D.partsBefore with flows := [] } found := by
  constructor
  case before =>
    apply Parser.completes_agentPart (K := fun k => k = .keyword (.opening .flow) → _)
    · rintro fs _ f rfl
      rfl
    · exact fun _ m m' h => Parser.same_section h
  case after =>
    apply Parser.completes_agentPart (K := fun _ => True)
    · rintro fs later f ⟨g, rfl, hg⟩
      exact ⟨g, by simp, hg⟩
    · exact fun _ m m' h => Parser.same_section h
  case start => exact Parser.related_eq_iff.mpr rfl
  case pass =>
    intro s p rest hG he hcap hs
    rw [sectionTokens_append] at hs
    obtain ⟨f, t, ht, hf, hreaches⟩ := h s rest he hcap hs
    exact ⟨t, _, Parser.agentPart_flow (D.opening.kind_eq hs) ht,
      { hG with flows := ⟨f, by rw [hG.flows], hf⟩ }, hreaches⟩

theorem passes_flow (D : Surroundings .flow) (hbody : IsBody body) :
    D.Passes body (AgentParts.Related Eq Eq)
      (AgentParts.Related Eq fun fs later => ∃ f, fs = D.partsBefore.flows ++ f :: later ∧
        f.rules = bodyItems Parser.flowRule body)
      { D.partsBefore with flows := [] } (itemProblems Parser.flowRule body) :=
  passes_of_flowSection (R := (· = bodyItems Parser.flowRule body)) D fun _ _ he hcap h =>
    Parser.flowSection_of_tokens D.opening hbody D.closes he hcap h

end Surroundings

/-- Whatever body a document has in its section, what is read of it are the items of the body,
and the errors are those of the body between the errors of the rest of the document. The items
and the errors of a body are those of its parts, one part behind the other. -/
structure LineByLine {α : Type} (document : List Token → ParsedFile)
    (Reads : ParsedFile → List α → Prop) (itemsOf : List Token → List α)
    (errorsOf : List Token → List ParseError) : Prop where
  reads : ∀ body, IsBody body → Reads (document body) (itemsOf body)
  errors : ∃ before after, ∀ body, IsBody body →
    (document body).errors = before ++ errorsOf body ++ after
  items_append : ∀ X Y, IsBody X → IsBody Y → itemsOf (X ++ Y) = itemsOf X ++ itemsOf Y
  errors_append : ∀ X Y, IsBody X → IsBody Y → errorsOf (X ++ Y) = errorsOf X ++ errorsOf Y

theorem lineByLine_of_passes {α : Type} {form : SectionForm} (D : Surroundings form)
    (file : Option String) {p : Parser α} [Parser.Proceeds p] (h : p.Completes fun _ => True)
    (h' : p.Refuses) {G : AgentParts → AgentParts → Prop}
    {G' : List Token → AgentParts → AgentParts → Prop} {instead : AgentParts}
    (hpass : ∀ body, IsBody body → D.Passes body G (G' body) instead (itemProblems p body))
    {Reads : ParsedFile → List α → Prop}
    (hreads : ∀ body parsed name parts location,
      parsed.agent = some (.ofParts name parts location) →
      G' body parts (D.partsAfter instead) → Reads parsed (bodyItems p body)) :
    LineByLine (D.document file) Reads (bodyItems p) (bodyErrors p file) := by
  constructor
  case reads =>
    intro body hbody
    obtain ⟨name, parts, location, hagent, hG', -⟩ :=
      Surroundings.document_of_passes (hpass body hbody) file
    exact hreads body _ name parts location hagent hG'
  case errors =>
    refine ⟨D.problemsBefore.map (·.toError file),
      (D.problemsAfter instead).map (·.toError file), ?_⟩
    intro body hbody
    obtain ⟨-, -, -, -, -, herrors⟩ :=
      Surroundings.document_of_passes (hpass body hbody) file
    rw [herrors, List.map_append, List.map_append, List.append_assoc]
    rfl
  case items_append => exact fun X Y hX hY => (bodyItems_itemProblems_append h h' hX hY).1
  case errors_append =>
    intro X Y hX hY
    unfold bodyErrors
    rw [(bodyItems_itemProblems_append h h' hX hY).2, List.map_append]

/-- Messages sections and flows are read line by line in every document. -/
theorem sections_lineByLine (file : Option String) :
    (∀ D : Surroundings .messages, LineByLine (D.document file) ParsedFile.HasMessages
      (bodyItems Parser.message) (bodyErrors Parser.message file)) ∧
    ∀ D : Surroundings .flow, ∃ earlier later, LineByLine (D.document file)
      (ParsedFile.HasRules earlier later) (bodyItems Parser.flowRule)
      (bodyErrors Parser.flowRule file) := by
  constructor
  · intro D
    apply lineByLine_of_passes D file Parser.completes_message Parser.refuses_message
    · exact fun body hbody => Surroundings.passes_messages D hbody
    · rintro body parsed name parts location hagent ⟨-, -, -, -, -, ⟨m, hm, hmessages⟩, -⟩
      exact ⟨_, m, hagent, hm, hmessages⟩
  · intro D
    refine ⟨D.partsBefore.flows, (D.partsAfter { D.partsBefore with flows := [] }).flows, ?_⟩
    apply lineByLine_of_passes D file Parser.completes_flowRule Parser.refuses_flowRule
    · exact fun body hbody => Surroundings.passes_flow D hbody
    · rintro body parsed name parts location hagent ⟨-, -, -, -, ⟨f, hflows, hrules⟩, -⟩
      exact ⟨_, f, hagent, hflows, hrules⟩

/-- A token that stands nowhere in particular. -/
def Token.unplaced (kind : TokenKind) (text : String) : Token := ⟨kind, text, .origin, .origin⟩

/-- The header of a section with a name. -/
def Opening.unplaced (form : SectionForm) (name : String) : Opening form where
  keyword := .unplaced (.keyword (.opening form)) form.word
  name := [.unplaced .properWord name]
  colon := .unplaced .colon ":"
  newline := .mark .newline .origin
  indent := .mark .indent .origin
  opens := rfl
  named := .given rfl
  closes := rfl
  ends := isMark_mark _ _
  deepens := isMark_mark _ _

/-- A document with nothing but one section in its agent. -/
def Surroundings.alone (form : SectionForm) : Surroundings form where
  front := []
  agent := .unplaced .agent "A"
  before := []
  opening := .unplaced form "S"
  close := .mark .dedent .origin
  after := []
  agentClose := .mark .dedent .origin
  back := []
  ending := .mark .eof .origin
  frontLines := .nil
  beforeLines := .nil
  afterLines := .nil
  backLines := .nil
  closes := isMark_mark _ _
  agentCloses := isMark_mark _ _
  ends := rfl

/-- A message with one string too many, and a suggestion below it. -/
def brokenText : List Token :=
  [.unplaced (.keyword (.form .text)) "text", .unplaced .string "\"Hi\"",
    .unplaced .string "\"Ho\""] ++
    .mark .newline .origin :: .mark .indent .origin ::
      (([.unplaced (.keyword (.suggestion .openUrl)) "openUrl", .unplaced .string "\"Go\""] ++
        .mark .newline .origin :: []) ++ .mark .dedent .origin :: [])

def plainText : List Token :=
  [.unplaced (.keyword (.form .text)) "text", .unplaced .string "\"Bye\""] ++
    .mark .newline .origin :: []

theorem isBody_brokenText : IsBody brokenText :=
  .block (by decide) (by simp) (isMark_mark _ _) (isMark_mark _ _)
    (.line (by decide) (by simp) (isMark_mark _ _) .nil) (isMark_mark _ _) .nil

theorem isBody_plainText : IsBody plainText :=
  .line (by decide) (by simp) (isMark_mark _ _) .nil

/-- The source of the document with both messages. -/
def brokenTextSource : String :=
  "agent A:\n  messages S:\n    text \"Hi\" \"Ho\"\n      openUrl \"Go\"\n    text \"Bye\"\n"

/-- The broken message costs an error, and the message behind it is read. -/
theorem sections_lineByLine_brokenText :
    (TokenizedText.ofSource brokenTextSource).tokens.map (·.kind) =
      ((Surroundings.alone .messages).tokens (brokenText ++ plainText)).map (·.kind) ∧
    (∃ m, ((Surroundings.alone .messages).document none
      (brokenText ++ plainText)).HasMessages [m]) ∧
    ∃ before e after,
      ((Surroundings.alone .messages).document none (brokenText ++ plainText)).errors =
        before ++ [e] ++ after := by
  have hlines := (sections_lineByLine none).1 (.alone .messages)
  have hbody := isBody_brokenText.append isBody_plainText
  have hitems : (bodyItems Parser.message (brokenText ++ plainText)).length = 1 := by
    decide +kernel
  have herrors : (bodyErrors Parser.message none (brokenText ++ plainText)).length = 1 := by
    decide +kernel
  obtain ⟨m, hm⟩ := List.length_eq_one_iff.mp hitems
  obtain ⟨e, he⟩ := List.length_eq_one_iff.mp herrors
  obtain ⟨before, after, hdocument⟩ := hlines.errors
  refine ⟨by decide +kernel, ⟨m, ?_⟩, before, e, after, ?_⟩
  · rw [← hm]
    exact hlines.reads _ hbody
  · rw [← he]
    exact hdocument _ hbody

end AgentScript
