import AgentScript.Document
import AgentScript.Proofs.LineEnds.Transcripts
import AgentScript.Proofs.Reading.LineStructure
import AgentScript.Proofs.Rendering.Files

/-!
# Documents with other line ends

A text says the same whatever its lines end with. Its tokens and lexical errors stand on the same
lines and columns, and the tree and the errors read from the tokens differ in offsets only.
-/
namespace AgentScript

open Rendered (render)

/-- The text with another line end in the place of every line feed. -/
def withLineEnds (lineEnd source : String) : String :=
  String.ofList (relined lineEnd.toList source.toList)

/-- The same line and column, at any offset. -/
def Position.Levels (p q : Position) : Prop := p.line = q.line ∧ p.column = q.column

/-- Tokens that agree but for offsets and what the end of a line is written as. -/
structure Token.Levels (a b : Token) : Prop where
  kind : a.kind = b.kind
  text : a.kind ≠ .newline → a.text = b.text
  start : a.start.Levels b.start
  stop : a.stop.Levels b.stop

/-- Errors that agree but for the offset. -/
structure LexicalError.Levels (a b : LexicalError) : Prop where
  message : a.message = b.message
  position : a.position.Levels b.position
  length : a.length = b.length
  file : a.file = b.file

/-- What is rendered to the same list agrees one by one. -/
theorem forall₂_of_render_eq {α : Type} [Rendered α] {R : α → α → Prop} {l m : List α}
    (hR : ∀ a b, render .withoutOffsets a = render .withoutOffsets b → R a b)
    (h : render .withoutOffsets l = render .withoutOffsets m) : List.Forall₂ R l m := by
  induction l generalizing m with
  | nil =>
    rw [List.map_eq_nil_iff.mp h.symm]
    exact .nil
  | cons a l ih =>
    obtain ⟨b, m, rfl, hb, hm⟩ := List.map_eq_cons_iff.mp h.symm
    exact .cons (hR a b hb.symm) (ih hm.symm)

theorem Token.levels_of_render_eq {a b : Token}
    (h : render .withoutOffsets a = render .withoutOffsets b) : a.Levels b := by
  obtain ⟨hkind, htext, hstart, hstop⟩ := Token.mk.inj h
  refine ⟨hkind, fun hne => ?_, Position.render_withoutOffsets_eq.mp hstart,
    Position.render_withoutOffsets_eq.mp hstop⟩
  rwa [if_neg hne, if_neg (hkind ▸ hne)] at htext

theorem LexicalFault.levels_of_render_eq {a b : LexicalFault} (file : Option String)
    (h : render .withoutOffsets a = render .withoutOffsets b) :
    (a.toError file).Levels (b.toError file) := by
  obtain ⟨hcause, hposition, hlength⟩ := LexicalFault.mk.inj h
  exact ⟨congrArg LexicalCause.message hcause, Position.render_withoutOffsets_eq.mp hposition,
    hlength, rfl⟩

/-- What is read from rendered tokens is rendered, where their end is the first one. -/
theorem ParsedFile.ofTokens_render (r : Rendering) {body : List Token} {last : Token}
    (hbody : ∀ t ∈ body, t.kind ≠ .eof) (hlast : last.kind = .eof) (options : ParseOptions) :
    ofTokens (render r (body ++ [last])) options =
      render r (ofTokens (body ++ [last]) options) := by
  have hclosed : Token.terminated (render r (body ++ [last])) =
      render r (body ++ [last]) ++ [] := by
    rw [List.append_nil, render_append]
    exact Token.terminated_of_eof List.getLast?_concat hlast
  exact ofTokens_rendered hbody hlast hclosed options

/-- The tokens of a text before their end. -/
theorem Reading.tokens_transcribe (text : List Char) :
    ∃ body last, (transcribe text).tokens.toList = body ++ [last] ∧
      (∀ t ∈ body, t.kind ≠ .eof) ∧ last.kind = .eof := by
  obtain ⟨body, stop, htokens, hnested, -⟩ := nested_transcribe text
  refine ⟨body, _, htokens, fun t ht heof => ?_, rfl⟩
  exact hnested.eof_notMem (heof ▸ List.mem_map_of_mem ht)

theorem ParsedFile.render_inj {r : Rendering} {p q : ParsedFile} (h : render r p = render r q) :
    render r p.tree = render r q.tree ∧ render r p.errors = render r q.errors := ParsedFile.mk.inj h

/-- Trees and errors of two texts whose tokens are rendered to the same. -/
theorem Document.ofSource_of_render_eq {r : Rendering} {source source' : String}
    (h : render r (Reading.transcribe source'.toList).tokens.toList =
      render r (Reading.transcribe source.toList).tokens.toList)
    (options : ParseOptions) :
    render r (ofSource source' options).tree = render r (ofSource source options).tree ∧
      render r (ofSource source' options).parseErrors =
        render r (ofSource source options).parseErrors := by
  obtain ⟨body, last, htokens, hbody, hlast⟩ := Reading.tokens_transcribe source.toList
  obtain ⟨body', last', htokens', hbody', hlast'⟩ := Reading.tokens_transcribe source'.toList
  rw [htokens, htokens'] at h
  have hread := ParsedFile.ofTokens_render r hbody hlast options
  have hread' := ParsedFile.ofTokens_render r hbody' hlast' options
  unfold ofSource TokenizedText.ofLabelledSource
  dsimp only
  rw [htokens, htokens']
  exact ParsedFile.render_inj (by rw [← hread, ← hread', h])

/-- A text says the same with every line feed replaced by a carriage return, or by both: its
tokens and lexical errors are the same on the same lines and columns, and without their offsets so
are its tree and its parse errors. -/
theorem Document.ofSource_withLineEnds (source : String) (h : '\r' ∉ source.toList)
    (lineEnd : String) (hend : lineEnd = "\r\n" ∨ lineEnd = "\r") (options : ParseOptions) :
    let text := TokenizedText.ofLabelledSource source options.file
    let text' := TokenizedText.ofLabelledSource (withLineEnds lineEnd source) options.file
    let document := ofSource source options
    let document' := ofSource (withLineEnds lineEnd source) options
    List.Forall₂ Token.Levels text'.tokens text.tokens ∧
      List.Forall₂ LexicalError.Levels text'.errors text.errors ∧
      render .withoutOffsets document'.tree = render .withoutOffsets document.tree ∧
      render .withoutOffsets document'.parseErrors =
        render .withoutOffsets document.parseErrors := by
  have he : IsLineEnd lineEnd.toList := by
    rcases hend with rfl | rfl
    · exact .both
    · exact .carriageReturn
  obtain ⟨htokens, hfaults⟩ := Reading.transcribe_relined he h
  have hsource : (withLineEnds lineEnd source).toList = relined lineEnd.toList source.toList :=
    String.toList_ofList
  rw [← hsource] at htokens hfaults
  have hlevels := forall₂_of_render_eq (fun _ _ => Token.levels_of_render_eq) htokens
  have herrors := forall₂_of_render_eq
    (fun _ _ => LexicalFault.levels_of_render_eq options.file) hfaults
  rw [← List.forall₂_map_right_iff, ← List.forall₂_map_left_iff] at herrors
  unfold TokenizedText.ofLabelledSource
  dsimp only
  exact ⟨hlevels, herrors, ofSource_of_render_eq htokens options⟩

theorem Document.ofSource_withLineEnds_openBracket :
    '\r' ∉ "agent A:\n  k: [\"".toList ∧
      List.Forall₂ LexicalError.Levels
        (TokenizedText.ofLabelledSource (withLineEnds "\r\n" "agent A:\n  k: [\"") none).errors
        (TokenizedText.ofLabelledSource "agent A:\n  k: [\"" none).errors ∧
      (TokenizedText.ofLabelledSource "agent A:\n  k: [\"" none).errors.length = 2 := by
  have hreturn : '\r' ∉ "agent A:\n  k: [\"".toList := by decide
  have h := ofSource_withLineEnds _ hreturn "\r\n" (.inl rfl) .standard
  exact ⟨hreturn, h.2.1, by decide +kernel⟩

end AgentScript
