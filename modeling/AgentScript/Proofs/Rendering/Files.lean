import AgentScript.Proofs.Parsing.FileLines
import AgentScript.Proofs.Rendering.Sections

/-!
# Rendered files

The tree of rendered tokens is the rendered tree, and the errors are the rendered errors. Where
nothing is rendered in another way this says that what stands behind the first end of input is
never read.
-/
namespace AgentScript

open Rendered (render render_same)

variable {r : Rendering} {beyond : List Token} {s : ParserState}

namespace FileParts

variable {f : FileParts}

/-- One item of a file, rendered with the state behind it. -/
theorem readItem_rendered (hs : s.Closed) (hend : s.kind ≠ .eof) :
    (render r f).readItem (s.rendered r beyond) =
      (render r (f.readItem s).1, (f.readItem s).2.rendered r beyond) := by
  have hbefore {k : TokenKind} (hk : s.kind = k) (hne : k ≠ .eof) (t : ParserState) (ht : t = s) :
      t.kind ≠ .eof := by rwa [ht, hk]
  unfold readItem
  rw [ParserState.kind_rendered]
  split
  case h_1 => rw [hs.advance_rendered hend]
  case h_2 hk =>
    have hmirrors : Parser.Mirrors r beyond (· = s) _ _ :=
      Parser.mirrors_importLine (hbefore hk (by decide))
    have hread := hmirrors.reads s hs rfl
    unfold readImport
    rw [hread]
    cases heq : Parser.importLine s with
    | ok i t =>
      change ({ render r f with imports := render r f.imports ++ [render r i], recognized := true },
        _) = _
      rw [render_concat]
      rfl
    | error p t =>
      have hclosed := hs.leads (Parser.importLine.leads_of_error heq)
      exact congrArg (Prod.mk _) (hclosed.recover_rendered p)
  case h_3 hk =>
    have hmirrors : Parser.Mirrors r beyond (· = s) _ _ :=
      Parser.mirrors_agent (hbefore hk (by decide))
    have hread := hmirrors.reads s hs rfl
    unfold readAgent
    rw [hread, ParserState.current_rendered]
    cases heq : Parser.agent s with
    | ok a t =>
      obtain ⟨imports, agent, recognized⟩ := f
      cases agent with
      | none => rfl
      | some old =>
        exact congrArg (Prod.mk _)
          (ParserState.report_rendered ⟨.secondAgent, some s.current.location⟩)
    | error p t =>
      have hclosed := hs.leads (Parser.agent.leads_of_error heq)
      exact congrArg (Prod.mk _) (hclosed.recover_rendered p)
  case h_4 =>
    unfold reportIndentation
    have hreport : _ = (s.report _).rendered r beyond :=
      ParserState.report_rendered ⟨.unexpectedIndentation, some s.current.location⟩
    rw [ParserState.current_rendered]
    have hclosed := hs.leads (s.leads_report ⟨.unexpectedIndentation, some s.current.location⟩)
    exact congrArg (Prod.mk _) ((congrArg _ hreport).trans hclosed.skipBlock_rendered)
  case h_5 =>
    unfold reportStray
    rw [ParserState.kind_rendered, ParserState.current_rendered]
    exact congrArg (Prod.mk _) (hs.recover_rendered
      ⟨.expected "'import' or 'agent'" s.kind s.current.text, some s.current.location⟩)

/-- The items of a file, by induction on the bound. -/
theorem readItems_rendered (hs : s.Closed) (fuel : Nat) :
    (render r f).readItems fuel (s.rendered r beyond) =
      (render r (f.readItems fuel s).1, (f.readItems fuel s).2.rendered r beyond) := by
  induction fuel generalizing f s with
  | zero => rfl
  | succ fuel ih =>
    rw [readItems_succ, readItems_succ, hs.atEnd_rendered, ParserState.halted_rendered]
    split_ifs with hstop
    · rfl
    · have hend : s.kind ≠ .eof := by
        intro heof
        rw [hs.atEnd, heof] at hstop
        exact hstop rfl
      have hnext : (render r f).nextItem (s.rendered r beyond) =
          (render r (f.nextItem s).1, (f.nextItem s).2.rendered r beyond) := by
        have hleads := leads_readItem f s
        have hsame : ((f.readItem s).2.remaining + beyond.length == s.remaining + beyond.length) =
            ((f.readItem s).2.remaining == s.remaining) := by simp
        unfold nextItem
        rw [readItem_rendered hs hend]
        dsimp only
        rw [ParserState.remaining_rendered, ParserState.remaining_rendered, hsame]
        split_ifs with hstuck
        · have hrest := hleads.rest_eq_of_remaining_eq (by simpa using hstuck)
          rw [(hs.leads hleads).advance_rendered]
          rw [ParserState.kind, hleads.current_eq hrest]
          exact hend
        · rfl
      rw [hnext]
      exact ih (hs.leads (leads_nextItem f s))

end FileParts

namespace ParsedFile

theorem read_rendered (hs : s.Closed) :
    read (s.rendered r beyond) = (render r (read s).1, (read s).2.rendered r beyond) := by
  have hitems : FileParts.empty.readItems (s.rendered r beyond).remaining (s.rendered r beyond) =
      (render r (FileParts.empty.readItems s.remaining s).1,
        (FileParts.empty.readItems s.remaining s).2.rendered r beyond) := by
    have hbound : FileParts.empty.readItems s.remaining s =
        FileParts.empty.readItems (s.remaining + beyond.length) s :=
      FileParts.readItems_congr (Nat.le_refl _) (Nat.le_add_right _ _)
    rw [hbound, ParserState.remaining_rendered]
    exact FileParts.readItems_rendered (f := .empty) hs _
  unfold read
  rw [hitems, ParserState.current_rendered]
  generalize FileParts.readItems s.remaining .empty s = read
  obtain ⟨⟨imports, agent, recognized⟩, t⟩ := read
  cases recognized with
  | false =>
    exact congrArg (Prod.mk _) (ParserState.report_rendered ⟨.nothingRecognized, none⟩)
  | true =>
    have htree (t : ParserState) : some (SourceFile.mk (render r imports) (render r agent)
        (some ((t.rendered r beyond).spanFrom (render r s.current.start)))) =
        render r (some (SourceFile.mk imports agent (some (t.spanFrom s.current.start)))) := by
      rw [t.spanFrom_rendered]
      rfl
    cases agent with
    | some a => exact congrArg (Prod.mk · _) (htree t)
    | none =>
      have hreport : _ = (t.report _).rendered r beyond :=
        ParserState.report_rendered ⟨.missingAgent, none⟩
      have hended := congrArg (Prod.mk · ((t.report ⟨.missingAgent, none⟩).rendered r beyond))
        (htree (t.report ⟨.missingAgent, none⟩))
      rw [← hreport] at hended
      exact hended.trans (congrArg (Prod.mk _) hreport)

end ParsedFile

theorem ParserState.ofTokens_eq {tokens body : List Token} {last : Token}
    (h : Token.terminated tokens = body ++ [last]) (cap : Nat) :
    ofTokens tokens cap = ⟨none, none, body, last, #[], cap⟩ := by
  unfold ofTokens
  dsimp only
  rw [h, List.dropLast_concat, List.getLastD_concat]

/-- A parse of rendered tokens begins with the rendered state, whatever stands behind them. -/
theorem ParserState.ofTokens_rendered {tokens body : List Token} {last : Token}
    (hlast : last.kind = .eof)
    (h : Token.terminated tokens = render r (body ++ [last]) ++ beyond) (cap : Nat) :
    ofTokens tokens cap = (ofTokens (body ++ [last]) cap).rendered r beyond := by
  have hclosed : Token.terminated (body ++ [last]) = body ++ [last] :=
    Token.terminated_of_eof List.getLast?_concat hlast
  have hsplit : Token.terminated tokens = (render r body ++ (render r last :: beyond).dropLast) ++
      [(render r last :: beyond).getLast (List.cons_ne_nil _ _)] := by
    rw [h, List.append_assoc, List.dropLast_concat_getLast, render_append, List.append_assoc]
    rfl
  rw [ofTokens_eq hclosed, ofTokens_eq hsplit, rendered, Array.map_empty]
  rfl

namespace ParsedFile

/-- What is read from rendered tokens, up to their first end of input, is what is read from the
tokens, rendered. -/
theorem ofTokens_rendered {tokens body : List Token} {last : Token}
    (hbody : ∀ t ∈ body, t.kind ≠ .eof) (hlast : last.kind = .eof)
    (h : Token.terminated tokens = render r (body ++ [last]) ++ beyond) (options : ParseOptions) :
    ofTokens tokens options = render r (ofTokens (body ++ [last]) options) := by
  have hclosed : (ParserState.ofTokens (body ++ [last]) options.maxErrors).Closed := by
    rw [ParserState.ofTokens_eq (Token.terminated_of_eof List.getLast?_concat hlast)]
    exact ⟨hlast, hbody⟩
  unfold ofTokens
  rw [ParserState.ofTokens_rendered hlast h, read_rendered hclosed]
  generalize read (ParserState.ofTokens (body ++ [last]) options.maxErrors) = read
  obtain ⟨tree, t⟩ := read
  have herrors : ((t.problems.map (render r)).toList.map (·.toError options.file)) =
      render r (t.problems.toList.map (·.toError options.file)) := by
    change _ = (t.problems.toList.map _).map (render r)
    rw [Array.toList_map, List.map_map, List.map_map]
    exact List.map_congr_left fun p _ => p.toError_render r options.file
  exact congrArg (ParsedFile.mk _) herrors

end ParsedFile

/-- The end of input that stands at the end of the last token of a list. -/
def Token.endOf (tokens : List Token) : Token :=
  .mark .eof (match tokens.getLast? with
    | some last => last.stop
    | none => .origin)

theorem Token.terminated_endOf {tokens : List Token} (h : ∀ t ∈ tokens, t.kind ≠ .eof) :
    Token.terminated tokens = tokens ++ [Token.endOf tokens] := by
  unfold Token.terminated Token.endOf
  cases hlast : tokens.getLast? with
  | none => rw [List.getLast?_eq_none_iff.mp hlast, List.nil_append]
  | some last => exact if_neg (h last (List.mem_of_getLast? hlast))

/-- An end of input that is added stands behind all others. -/
theorem Token.terminated_append_cons (tokens : List Token) (last : Token) (more : List Token) :
    ∃ beyond, Token.terminated (tokens ++ last :: more) = tokens ++ last :: beyond := by
  have hadded : Token.terminated (tokens ++ last :: more) = tokens ++ last :: more ∨
      ∃ added, Token.terminated (tokens ++ last :: more) = (tokens ++ last :: more) ++ [added] := by
    unfold Token.terminated
    split
    · next hnone => simp at hnone
    · split_ifs
      · exact .inl rfl
      · exact .inr ⟨_, rfl⟩
  rcases hadded with h | ⟨added, h⟩
  · exact ⟨more, h⟩
  · exact ⟨more ++ [added], by rw [h, List.append_assoc, List.cons_append]⟩

/-- Whatever stands behind the first end of input, the tree and the errors are the same, and so
they are without it where it would stand at the end of the last token. -/
theorem ParsedFile.ofTokens_firstEnd (tokens : List Token) (h : ∀ t ∈ tokens, t.kind ≠ .eof)
    (last : Token) (hlast : last.kind = .eof) (more : List Token) (options : ParseOptions) :
    ofTokens (tokens ++ last :: more) options = ofTokens (tokens ++ [last]) options ∧
      ofTokens tokens options = ofTokens (tokens ++ [Token.endOf tokens]) options := by
  constructor
  · obtain ⟨beyond, hbeyond⟩ := Token.terminated_append_cons tokens last more
    have hsame : Token.terminated (tokens ++ last :: more) =
        render .same (tokens ++ [last]) ++ beyond := by
      rw [render_same, hbeyond, List.append_assoc]
      rfl
    rw [ofTokens_rendered h hlast hsame, render_same]
  · have hend : Token.terminated (tokens ++ [Token.endOf tokens]) =
        tokens ++ [Token.endOf tokens] :=
      Token.terminated_of_eof List.getLast?_concat rfl
    unfold ofTokens
    rw [ParserState.ofTokens_eq hend, ParserState.ofTokens_eq (Token.terminated_endOf h)]

/-- The tokens of `agent A:` and behind their end of another agent. -/
def agentHeader (name : String) : List Token :=
  [.mark (.keyword (.opening .agent)) .origin, ⟨.properWord, name, .origin, .origin⟩,
    .mark .colon .origin, .mark .newline .origin]

theorem ParsedFile.ofTokens_firstEnd_agentHeader :
    (∀ t ∈ agentHeader "A", t.kind ≠ .eof) ∧
    (ofTokens (agentHeader "A" ++ .mark .eof .origin :: agentHeader "B") .standard).tree =
      (ofTokens (agentHeader "A" ++ [.mark .eof .origin]) .standard).tree ∧
    (ofTokens (agentHeader "A") .standard).tree.isSome = true := by
  have hbody : ∀ t ∈ agentHeader "A", t.kind ≠ .eof := by decide
  have hfirst := ofTokens_firstEnd _ hbody (.mark .eof .origin) rfl (agentHeader "B") .standard
  exact ⟨hbody, congrArg ParsedFile.tree hfirst.1, by decide +kernel⟩

end AgentScript
