import AgentScript.Proofs.Parsing.FilePlacement
import AgentScript.Proofs.Writing.Acceptance
import AgentScript.Proofs.Writing.Erasure
import AgentScript.Proofs.Writing.Phrases

/-!
# Files that were written

A printed outline whose lines are accepted as the items of a file makes a document without
errors, with the tree that the items make.
-/
namespace AgentScript

open ParserState Writing

/-- A section goes on behind its header with what has been read of it. -/
theorem Parser.Accepts.headed {β : Type} {form : SectionForm} {name : Name} {what colon : String}
    {f : Token → String → Parser β} {forms : List TokenForm} {follow : TokenKind → Prop}
    {Q : β → Prop} (h : ∀ t, (f t name.text).Accepts forms follow Q) :
    (do
      let t ← advance
      let read ← takeName what
      let _ ← expect .colon colon
      f t read).Accepts (headerForms form name ++ forms) follow Q := by
  have hforms : headerForms form name ++ forms = [.ofKind (.keyword (.opening form))] ++
      ([.word name.text] ++ ([.ofKind .colon] ++ forms)) := rfl
  rw [hforms]
  refine (accepts_pass (TokenForm.onLine_ofKind rfl)).bind fun t _ => ?_
  refine (accepts_takeName name.text _).bind fun read hread => ?_
  rw [hread]
  exact (accepts_expect (by decide) _).bind fun _ _ => h t

/-- An agent is the header of it with the lines below. -/
theorem Parser.accepts_agentOf {ι : Type} {words : ι → List TokenForm} {head : ι}
    {body : Outline ι} {name : Name} {tree : Agent}
    (hhead : words head = headerForms .agent name)
    (hbody : (LineParser.whole agentPart).Collects .empty (body.forms words)
      fun p => (Agent.ofParts name.text p default).erased = tree) :
    agent.Accepts (Outline.itemForms words (head, body)) (· ≠ .indent) (·.erased = tree) := by
  rw [Outline.itemForms, hhead]
  unfold agent
  refine .headed fun t => ?_
  refine (accepts_block hbody).bind_last fun parts hparts => .spanFrom fun l => .pure ?_
  rw [← hparts]
  rfl

/-- A document without errors, whose tree is the given one up to locations. -/
structure Document.ReadAs (d : Document) (tree : SourceFile) : Prop where
  lexicalErrors : d.lexicalErrors = []
  parseErrors : d.parseErrors = []
  tree : d.tree.map SourceFile.erased = some tree

theorem ParserState.halted_ofTokens (tokens : List Token) (cap : Nat) :
    (ofTokens tokens cap).halted = false := by
  change (decide (0 < cap) && decide (cap ≤ 0)) = false
  simp [Nat.pos_iff_ne_zero]

/-- The tokens of a file stand before the end of it. -/
theorem ParserState.before_ofTokens {tokens : List Token} {forms : List TokenForm} {cap : Nat}
    (hmatch : Token.Match tokens (forms ++ [.ofKind .eof]))
    (hall : (ofTokens tokens cap).tokens = tokens) :
    ∃ last, (ofTokens tokens cap).Before forms (· = .eof) [last] := by
  obtain ⟨body, ending, htokens, hbody, hending⟩ := hmatch.split
  obtain ⟨last, _, hlast, hnil, rfl⟩ := List.forall₂_cons_right_iff.mp hending
  obtain rfl := List.forall₂_nil_right_iff.mp hnil
  exact ⟨last, {
    tokens := ⟨body, hall.trans htokens, hbody⟩
    follows := ⟨last, [], rfl, hlast⟩
    ending := ending_kind_ofTokens _ _
    going := halted_ofTokens _ _ }⟩

namespace FileParts

variable {f : FileParts} {forms : List TokenForm}

theorem adds_import {P : Import → Prop}
    (hk : ∀ k, Heads forms (· ≠ .indent) k → k = .keyword .importWord)
    (h : Parser.importLine.Accepts forms (· ≠ .indent) P) :
    itemLine.Adds f forms fun f' => ∃ i, P i ∧ f' = ⟨f.imports ++ [i], f.agent, true⟩ := by
  intro s rest hs
  obtain ⟨i, t, hi, hP, ht⟩ := h hs
  exact ⟨_, t, by rw [itemLine_import f (hk _ hs.heads), hi], ⟨i, hP, rfl⟩, ht⟩

theorem adds_agent {P : Agent → Prop} (hf : f.agent = none)
    (hk : ∀ k, Heads forms (· ≠ .indent) k → k = .keyword (.opening .agent))
    (h : Parser.agent.Accepts forms (· ≠ .indent) P) :
    itemLine.Adds f forms fun f' => ∃ a, P a ∧ f' = ⟨f.imports, some a, true⟩ := by
  intro s rest hs
  obtain ⟨a, t, ha, hP, ht⟩ := h hs
  exact ⟨_, t, by rw [itemLine_agent f (hk _ hs.heads), ha, hf], ⟨a, hP, rfl⟩, ht⟩

/-- What the items of a whole file are. -/
structure Are (imports : List Import) (agent : Agent) (f : FileParts) : Prop where
  recognized : f.recognized = true
  imports : f.imports.map Import.erased = imports
  agent : f.agent.map Agent.erased = some agent

/-- The last item of a file is its agent. -/
theorem collects_agent {ι : Type} {words : ι → List TokenForm} {head : ι} {body : Outline ι}
    {name : Name} {imports : List Import} {tree : Agent}
    (hhead : words head = headerForms .agent name) (hopens : ∀ l, Opens (words l))
    (h : Parser.agent.Accepts (Outline.itemForms words (head, body)) (· ≠ .indent)
      (·.erased = tree))
    (himports : f.imports.map Import.erased = imports) (hagent : f.agent = none) :
    itemLine.Collects f ((Outline.ofList [(head, body)]).forms words) (Are imports tree) := by
  have hkind (k : TokenKind) (hk : Heads (Outline.itemForms words (head, body)) (· ≠ .indent) k) :
      k = .keyword (.opening .agent) := by
    rw [Outline.itemForms, hhead] at hk
    exact kind_of_heads (fun _ ht => ht) hk
  refine LineParser.collects_cons hopens (adds_agent hagent hkind h) ?_
  rintro _ ⟨read, hread, rfl⟩
  exact LineParser.collects_nil ⟨rfl, himports, congrArg some hread⟩

end FileParts

namespace ParsedFile

variable {imports : List Import} {agent : Agent}

theorem read_of_collects {s : ParserState} {forms : List TokenForm} {last : Token}
    (h : FileParts.itemLine.Collects .empty forms (FileParts.Are imports agent))
    (hs : s.Before forms (· = .eof) [last]) :
    (read s).1.map SourceFile.erased = some ⟨imports, agent, none⟩ ∧
      (read s).2.problems.toList = s.problems.toList := by
  obtain ⟨f, t, hf, ht, hgathers⟩ := h.gathers (hs.imp (by simp))
  have hend : t.atEnd = true :=
    atEnd_of_remaining_eq_zero (by simpa using remaining_of_tokens ht.tokens)
  have hrun : FileParts.empty.readItems s.remaining s = (f, t) :=
    (hgathers FileParts.lineLoop_runItems).trans (FileParts.runItems_of_atEnd hend)
  have hagent : f.agent.isNone = false := by
    have hsome := hf.agent
    cases hread : f.agent with
    | none => rw [hread] at hsome; exact nomatch hsome
    | some a => rfl
  have hread : read s = (some ⟨f.imports, f.agent, some (t.spanFrom s.current.start)⟩, t) := by
    simp [read, hrun, hf.recognized, hagent]
  rw [hread]
  refine ⟨?_, by simp [ht.problems]⟩
  rw [Option.map_some, SourceFile.erased, hf.imports, hf.agent]

theorem ofTokens_of_collects {tokens : List Token} {forms : List TokenForm}
    (h : FileParts.itemLine.Collects .empty forms (FileParts.Are imports agent))
    (hmatch : Token.Match tokens (forms ++ [.ofKind .eof])) (options : ParseOptions)
    (hall : (ParserState.ofTokens tokens options.maxErrors).tokens = tokens) :
    (ofTokens tokens options).tree.map SourceFile.erased = some ⟨imports, agent, none⟩ ∧
      (ofTokens tokens options).errors = [] := by
  obtain ⟨last, hs⟩ := before_ofTokens hmatch hall
  obtain ⟨htree, hproblems⟩ := read_of_collects h hs
  exact ⟨htree, congrArg (List.map _) hproblems⟩

end ParsedFile

variable {ι : Type} {text : ι → List Char} {words : ι → List TokenForm}

/-- An outline that is read as what it was written for makes a document that says what the items
of the file say. -/
theorem Document.readAs_outline {o : Outline ι} (ho : o.Readable text words 0)
    {imports : List Import} {agent : Agent}
    (h : FileParts.itemLine.Collects .empty (o.forms words) (FileParts.Are imports agent))
    (options : ParseOptions) :
    (Document.ofSource (String.ofList (o.print text 0)) options).ReadAs
      ⟨imports, agent, none⟩ := by
  obtain ⟨hmatch, hfaults⟩ := Reading.transcribe_print ho
  obtain ⟨htree, herrors⟩ :=
    ParsedFile.ofTokens_of_collects h hmatch options (tokens_ofSource _ _)
  unfold Document.ofSource TokenizedText.ofLabelledSource
  rw [String.toList_ofList]
  dsimp only
  rw [hfaults]
  exact ⟨rfl, herrors, htree⟩

/-- Lines that are all read as what they were written for. -/
theorem Document.readAs_print (hlines : ∀ l, LineReadsAs (text l) (words l)) (o : Outline ι)
    {imports : List Import} {agent : Agent}
    (h : FileParts.itemLine.Collects .empty (o.forms words) (FileParts.Are imports agent))
    (options : ParseOptions) :
    (Document.ofSource (String.ofList (o.print text 0)) options).ReadAs
      ⟨imports, agent, none⟩ :=
  readAs_outline (o.readable_of_lines hlines 0) h options

end AgentScript
