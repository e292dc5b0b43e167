import AgentScript.Proofs.Reading.Composites
import AgentScript.Proofs.Reading.PhysicalLines

/-!
# The indentation of logical lines

A logical line begins behind the end of the one before it, at the first physical line on which there
is more than blanks and a comment. Its indentation can be told from the text and from the tokens
before it; within the line it is the width that the layout remembers.
-/
namespace AgentScript

open CharClass Lexeme PhysicalLine TokenKind

variable {text : List Char} {marker : Token} {before : List Token}

/-- The width of the first line of a text on which there is more than blanks and a comment. -/
def indentationOf (text : List Char) : Nat :=
  ((split text).find? fun l => !restIsBlank l.text).elim 0 fun l => blankLength l.text

/-- The offset behind the last line end, from which the present logical line is to be found. -/
def lineStart (tokens : List Token) : Nat :=
  ((tokens.filter (·.kind = newline)).getLast?.map (·.stop.offset)).getD 0

/-- The indentation of the logical line behind some tokens. -/
def lineIndentation (text : List Char) (before : List Token) : Nat :=
  indentationOf (text.drop (lineStart before))

theorem PhysicalLine.exists_first (h : text ≠ []) :
    ∃ (l : PhysicalLine) (following : List Char),
      text = l.chars ++ following ∧ l.chars ≠ [] ∧ l.Before following := by
  have hparted := parted_split text
  have hjoin := join_split text
  cases hsplit : split text with
  | nil =>
    rw [hsplit] at hjoin
    exact absurd hjoin.symm h
  | cons l more =>
    rw [hsplit] at hparted hjoin
    obtain ⟨hne, hbefore, -⟩ := hparted
    rw [List.append_nil] at hbefore
    exact ⟨l, join more, hjoin.symm, hne, hbefore⟩

theorem indentationOf_of_blank (h : restIsBlank text = true) :
    indentationOf (text.drop (lineLength text + breakLength (text.drop (lineLength text)))) =
      indentationOf text := by
  by_cases hne : text = []
  · simp [hne]
  obtain ⟨l, following, rfl, hne, hbefore⟩ := exists_first hne
  rw [← restIsBlank_firstLine, hbefore.firstLine_eq] at h
  rw [hbefore.lineLength_eq, hbefore.breakLength_eq, drop_chars, indentationOf, indentationOf,
    hbefore.split_eq hne]
  simp [h]

theorem indentationOf_of_notBlank (h : restIsBlank text = false) :
    indentationOf text = blankLength text := by
  have hne : text ≠ [] := by
    rintro rfl
    exact nomatch h
  obtain ⟨l, following, rfl, hne, hbefore⟩ := exists_first hne
  rw [← onLine_blankLength.eq, hbefore.firstLine_eq]
  rw [← restIsBlank_firstLine, hbefore.firstLine_eq] at h
  rw [indentationOf, hbefore.split_eq hne]
  simp [h]

theorem lineStart_append {more : List Token} (h : ∀ t ∈ more, t.kind ≠ newline) :
    lineStart (before ++ more) = lineStart before := by
  have hnone : more.filter (·.kind = newline) = [] := by simpa using h
  rw [lineStart, List.filter_append, hnone, List.append_nil, lineStart]

theorem lineStart_concat (h : marker.kind = newline) :
    lineStart (before ++ [marker]) = marker.stop.offset := by
  simp [lineStart, h]

namespace Reading

variable {r : Reading}

/-- The reading knows the indentation of the line that it is in, or of the one that it is to
begin. -/
structure KnowsIndentation (text : List Char) (r : Reading) : Prop where
  follows : r.transcript.Follows text
  laid : r.Laid
  width : lineIndentation text r.transcript.tokens.toList =
    if r.layout.beginsLine then indentationOf r.rest else r.layout.lineWidth

theorem knowsIndentation_start (text : List Char) : (start text).KnowsIndentation text :=
  ⟨Transcript.follows_start text, laid_start text, rfl⟩

/-- Pieces that end no line leave its start where it is. -/
theorem lineStart_tokens {ps : List Piece} (h : newline ∉ Piece.kinds ps) (c : Cursor) :
    lineStart (before ++ c.tokens ps) = lineStart before := by
  refine lineStart_append fun t ht hk => h ?_
  rw [← Piece.kinds_tokens c, ← hk]
  exact List.mem_map_of_mem ht

theorem newline_notMem_indentation (r : Reindent) (width : Nat) :
    newline ∉ Piece.kinds (Round.indentation r width) := by
  unfold Round.indentation
  split_ifs <;> simp +contextual [Piece.kinds]

theorem newline_notMem_inLine {ps : List Piece} (h : ∀ p ∈ ps, p.inLine = true) :
    newline ∉ Piece.kinds ps :=
  fun hk => nomatch Piece.isStructural_of_mem_kinds h newline hk

theorem KnowsIndentation.round (h : r.KnowsIndentation text) (hrest : r.rest ≠ []) :
    r.round.KnowsIndentation text := by
  have hfollows : r.round.transcript.Follows text := follows_round h.follows
  refine ⟨hfollows, laid_round hrest h.laid, ?_⟩
  have hform := Round.next_form r.layout hrest
  have htokens := r.tokens_round
  have hbehind := round_rest r
  have hlayout : r.round.layout = (Round.next r.layout r.transcript.cursor).layout := rfl
  have hcursor := r.cursor_round
  have hwidth := h.width
  generalize Round.next r.layout r.transcript.cursor = next at *
  rw [htokens, hlayout]
  unfold lineIndentation at hwidth ⊢
  cases hform with
  | blank begins isBlank =>
    simp only [begins, if_true] at hwidth ⊢
    simp only [Cursor.tokens, List.append_nil, hwidth, hbehind, Piece.total_cons, Piece.total_nil,
      Piece.width, Nat.add_zero]
    exact (indentationOf_of_blank isBlank).symm
  | indented begins notBlank =>
    simp only [begins, if_true] at hwidth
    have hinside : (r.layout.enterLine (blankLength r.transcript.cursor.rest)).beginsLine = false :=
      rfl
    rw [lineStart_tokens (newline_notMem_indentation _ _), hwidth, hinside]
    exact indentationOf_of_notBlank notBlank
  | within inside modes brackets inLine =>
    have hopen : r.layout.atLineStart = false := by
      by_contra hstart
      have hstart : r.layout.atLineStart = true := by simpa using hstart
      simp [Layout.beginsLine, hstart, (h.laid.atStart hstart).1] at inside
    rw [lineStart_tokens (newline_notMem_inLine inLine), hwidth]
    simp [Layout.beginsLine, hopen]
  | @ended inside closed pieces length inLine =>
    have hbegins : r.layout.leaveLine.beginsLine = true := by
      simp [Layout.leaveLine, Layout.beginsLine, closed]
    have hend : (r.transcript.cursor.advance (Piece.total pieces)).tokens
        [.token newline length] = [⟨newline, _, _, _⟩] := rfl
    rw [hbegins, if_pos rfl, Cursor.tokens_append, ← List.append_assoc, hend, lineStart_concat rfl]
    have hstop : (r.transcript.cursor.advance (Piece.total pieces)).advance length =
        r.round.transcript.cursor := by
      rw [hcursor, ← Cursor.advance_add]
      simp [Piece.width]
    rw [hstop]
    exact congrArg indentationOf hfollows.along.rest_eq_drop.symm

/-- Within a line a reading has the width of the logical line as its line's width. -/
theorem lineWidth_rounds {m : Nat} (h : (rounds m (start text)).layout.beginsLine = false) :
    (rounds m (start text)).layout.lineWidth =
      lineIndentation text (rounds m (start text)).transcript.tokens.toList := by
  have hwidth := (rounds_induction (P := KnowsIndentation text)
    (fun r hrest h => h.round hrest) m (knowsIndentation_start text)).width
  rw [h] at hwidth
  exact hwidth.symm

end Reading

end AgentScript
