import AgentScript.Proofs.LineEnds.Rounds
import AgentScript.Proofs.Reading.Coverage

/-!
# Transcripts of a text with other line ends

Two readings go along a text and the same text with other line ends. Round by round they stand
before the same character on the same line and column, and they have the same tokens and faults
but for the offsets and for what the line ends are written as.
-/
namespace AgentScript

open CharClass Lexeme
open Rendered (render render_same)

instance : Rendered LexicalFault where
  render r f := { f with position := render r f.position }
  render_same f := by rw [render_same]

/-- The second cursor stands at the same point of the text with other line ends. -/
structure Cursor.Relined (e : List Char) (c c' : Cursor) : Prop where
  rest : c'.rest = relined e c.rest
  noReturn : '\r' ∉ c.rest
  position : render .withoutOffsets c'.position = render .withoutOffsets c.position
  afterReturn : c.tracker.afterReturn = false
  previous : Round.SamePassed c.previous c'.previous

namespace Cursor

variable {e text rest : List Char} {c c' : Cursor}

theorem relined_atStart (h : '\r' ∉ text) :
    Relined e (atStart text) (atStart (relined e text)) :=
  ⟨rfl, h, rfl, rfl, .inl rfl⟩

/-- Line and column behind a character of the line. -/
theorem position_step {x : Char} (hx : isLineBreak x = false) (t : Tracker) :
    (t.step x).position = ⟨t.position.line, t.position.column + 1, t.position.offset + 1⟩ := by
  have hr : x ≠ '\r' := by
    rintro rfl
    exact nomatch hx
  unfold Tracker.step
  rw [if_neg hr, if_neg (ne_lineFeed hx)]

theorem afterReturn_step {x : Char} (hx : x ≠ '\r') (t : Tracker) :
    (t.step x).afterReturn = false := by
  unfold Tracker.step
  rw [if_neg hx]
  split_ifs <;> rfl

theorem Relined.advance (h : Relined e c c') {n : Nat} (hn : n ≤ (firstLine c.rest).length) :
    Relined e (c.advance n) (c'.advance n) := by
  induction n generalizing c c' with
  | zero => exact h
  | succ n ih =>
    cases hrest : c.rest with
    | nil =>
      have hrest' : c'.rest = [] := by rw [h.rest, hrest]; rfl
      rw [advance_of_rest_nil hrest, advance_of_rest_nil hrest']
      exact h
    | cons x rest =>
      rw [hrest] at hn
      cases hx : isLineBreak x with
      | true =>
        rw [firstLine_break hx] at hn
        exact absurd hn (Nat.not_succ_le_zero n)
      | false =>
        rw [firstLine_cons hx] at hn
        have hrest' : c'.rest = x :: relined e rest := by
          rw [h.rest, hrest, relined_cons (ne_lineFeed hx)]
        have hreturn := List.mem_cons.not.mp (hrest ▸ h.noReturn)
        obtain ⟨hline, hcolumn⟩ := Position.render_withoutOffsets_eq.mp h.position
        rw [advance_succ_of_rest_cons hrest, advance_succ_of_rest_cons hrest']
        refine ih ⟨rfl, fun hmem => hreturn (.inr hmem), ?_, ?_, .inl rfl⟩
          (Nat.le_of_succ_le_succ hn)
        · rw [Position.render_withoutOffsets_eq, Cursor.position, Cursor.position, position_step hx,
            position_step hx]
          exact ⟨hline, congrArg (· + 1) hcolumn⟩
        · exact afterReturn_step (fun hx => hreturn (.inl hx.symm)) _

/-- Both cursors pass a line break, each as it is written in its text. -/
theorem Relined.passBreak (he : IsLineEnd e) (h : Relined e c c') (hrest : c.rest = '\n' :: rest) :
    Relined e (c.advance 1) (c'.advance e.length) := by
  have hrest' : c'.rest = e ++ relined e rest := by rw [h.rest, hrest, relined_break]
  have hreturn := List.mem_cons.not.mp (hrest ▸ h.noReturn)
  obtain ⟨hline, -⟩ := Position.render_withoutOffsets_eq.mp h.position
  have hstep : c.tracker.step '\n' =
      ⟨⟨c.position.line + 1, 1, c.position.offset + 1⟩, false⟩ := by
    unfold Tracker.step
    rw [if_neg (by decide), if_pos rfl, h.afterReturn]
    rfl
  rw [advance_succ_of_rest_cons hrest, advance_zero, hstep]
  constructor
  case rest => rw [advance_rest, hrest', List.drop_left]
  case noReturn => exact fun hmem => hreturn (.inr hmem)
  case position =>
    rw [Position.render_withoutOffsets_eq, Cursor.position, advance_tracker, hrest', List.take_left]
    cases he <;> exact ⟨congrArg (· + 1) hline, rfl⟩
  case afterReturn => rfl
  case previous =>
    refine .inr ⟨rfl, ?_⟩
    cases he with
    | carriageReturn =>
      rw [List.length_singleton, advance_succ_of_rest_cons hrest']
      rfl
    | both =>
      rw [List.length_cons, advance_succ_of_rest_cons hrest', List.length_singleton,
        advance_succ_of_rest_cons rfl]
      rfl

/-- The rounds at both cursors. -/
theorem Relined.next (he : IsLineEnd e) (h : Relined e c c') {l l' : Layout} (hl : l.Alike l') :
    Round.Relined e c.rest (Round.next l c) (Round.next l' c') := by
  have hreturn := h.noReturn
  have hrest' := h.rest
  unfold Round.next
  cases hrest : c.rest with
  | nil =>
    rw [hrest] at hrest'
    rw [hrest']
    exact .ofLine hl (Nat.le_refl 0)
  | cons x rest =>
    rw [hrest] at hrest' hreturn
    obtain ⟨x', rest', hnew⟩ := List.exists_cons_of_ne_nil
      ((relined_eq_nil he).not.mpr (List.cons_ne_nil x rest))
    rw [hrest', hnew]
    dsimp only
    rw [hl.beginsLine]
    split_ifs
    · rw [← hnew]
      exact Round.beginLine_relined he hreturn hl
    · by_cases hx : x = '\n'
      · subst hx
        have hx' : isLineBreak x' = true := by
          rw [relined_break] at hnew
          cases he <;> cases hnew <;> rfl
        rw [Round.within_break hx', Round.within_break rfl, ← hnew]
        exact Round.endLine_break_relined he hl
      · obtain ⟨rfl, rfl⟩ := List.cons.inj ((relined_cons hx e rest).symm.trans hnew)
        obtain ⟨hne, hreturn⟩ := not_or.mp (List.mem_cons.not.mp hreturn)
        have hbreak : isLineBreak x = false := by simp [isLineBreak, hx, Ne.symm hne]
        exact Round.within_relined he hbreak hreturn h.previous h.position hl

end Cursor

/-- The two transcripts agree but for offsets and line ends. -/
structure Transcript.Relined (e : List Char) (t t' : Transcript) : Prop where
  cursor : Cursor.Relined e t.cursor t'.cursor
  tokens : render .withoutOffsets t'.tokens.toList = render .withoutOffsets t.tokens.toList
  faults : render .withoutOffsets t'.faults.toList = render .withoutOffsets t.faults.toList

namespace Transcript

variable {e text : List Char} {t t' : Transcript}

theorem relined_start (h : '\r' ∉ text) : Relined e (start text) (start (relined e text)) :=
  ⟨Cursor.relined_atStart h, rfl, rfl⟩

theorem render_push {α : Type} [Rendered α] {a a' : α} {ts ts' : Array α}
    (hs : render .withoutOffsets ts'.toList = render .withoutOffsets ts.toList)
    (h : render .withoutOffsets a' = render .withoutOffsets a) :
    render .withoutOffsets (ts'.push a').toList = render .withoutOffsets (ts.push a).toList := by
  rw [Array.toList_push, Array.toList_push, ← render_concat, ← render_concat, hs, h]

/-- A token does not show what a line end is written as. -/
theorem render_token {kind : TokenKind} {text text' : String} {p p' q q' : Position}
    (htext : kind ≠ .newline → text' = text)
    (hp : render .withoutOffsets p' = render .withoutOffsets p)
    (hq : render .withoutOffsets q' = render .withoutOffsets q) :
    render .withoutOffsets (⟨kind, text', p', q'⟩ : Token) =
      render .withoutOffsets (⟨kind, text, p, q⟩ : Token) := by
  have hshown : (if kind = .newline then "" else text') = if kind = .newline then "" else text := by
    split_ifs with h
    · rfl
    · exact htext h
  change Token.mk kind _ (render _ p') (render _ q') = Token.mk kind _ (render _ p) (render _ q)
  rw [hp, hq]
  exact congrArg (Token.mk kind · _ _) hshown

/-- A piece of a line adds the same to both. -/
theorem Relined.extend (he : IsLineEnd e) (h : Relined e t t') {p : Piece}
    (hp : p.width ≤ (firstLine t.cursor.rest).length) : Relined e (t.extend p) (t'.extend p) := by
  have hcursor := h.cursor.advance hp
  cases p with
  | skip n => exact ⟨hcursor, h.tokens, h.faults⟩
  | token kind n =>
    have htake : t'.cursor.rest.take n = t.cursor.rest.take n := by
      rw [h.cursor.rest]
      exact take_relined he h.cursor.noReturn hp
    refine ⟨hcursor, render_push h.tokens ?_, h.faults⟩
    exact render_token (fun _ => congrArg String.ofList htake) h.cursor.position hcursor.position
  | fault cause n =>
    refine ⟨h.cursor, h.tokens, render_push h.faults ?_⟩
    exact congrArg (LexicalFault.mk cause · n) h.cursor.position

theorem Relined.extendAll (he : IsLineEnd e) (h : Relined e t t') {ps ps' : List Piece}
    (hp : Piece.Relined e t.cursor.rest ps ps') :
    Relined e (t.extendAll ps) (t'.extendAll ps') := by
  generalize htext : t.cursor.rest = text at hp
  induction hp generalizing t t' with
  | nil => exact h
  | @same text p ps ps' hp _ ih =>
    subst htext
    refine ih (h.extend he hp) ?_
    rw [extend_cursor, Cursor.advance_rest]
  | @skip rest ps ps' _ ih =>
    have hcursor := h.cursor.passBreak he htext
    refine ih ⟨hcursor, h.tokens, h.faults⟩ ?_
    rw [extend_cursor, Cursor.advance_rest, htext]
    rfl
  | @newline rest ps ps' _ ih =>
    have hcursor := h.cursor.passBreak he htext
    refine ih ⟨hcursor, render_push h.tokens ?_, h.faults⟩ ?_
    · exact render_token (fun h => absurd rfl h) h.cursor.position hcursor.position
    · rw [extend_cursor, Cursor.advance_rest, htext]
      rfl

end Transcript

/-- The two readings agree but for offsets and line ends. -/
structure Reading.Relined (e : List Char) (r r' : Reading) : Prop where
  layout : r.layout.Alike r'.layout
  transcript : Transcript.Relined e r.transcript r'.transcript

namespace Reading

variable {e text : List Char} {t t' : Transcript} {r r' : Reading}

theorem relined_start (h : '\r' ∉ text) : Relined e (start text) (start (relined e text)) :=
  ⟨.refl _, Transcript.relined_start h⟩

theorem Relined.rest_eq_nil (he : IsLineEnd e) (h : Relined e r r') :
    r'.rest = [] ↔ r.rest = [] := by
  rw [rest, rest, h.transcript.cursor.rest, relined_eq_nil he]

theorem Relined.round (he : IsLineEnd e) (h : Relined e r r') : Relined e r.round r'.round := by
  have hnext := h.transcript.cursor.next he h.layout
  exact ⟨hnext.layout, h.transcript.extendAll he hnext.pieces⟩

theorem Relined.rounds (he : IsLineEnd e) (h : Relined e r r') (n : Nat) :
    Relined e (rounds n r) (rounds n r') := by
  induction n generalizing r r' with
  | zero => exact h
  | succ n ih =>
    unfold Reading.rounds
    simp only [List.isEmpty_iff, h.rest_eq_nil he]
    split_ifs
    · exact h
    · exact ih (h.round he)

theorem Relined.endsInLine (h : Transcript.Relined e t t') : t'.endsInLine = t.endsInLine := by
  have hkinds (ts : List Token) :
      (render .withoutOffsets ts).map Token.kind = ts.map Token.kind := List.map_map
  have hlast (t : Transcript) :
      t.endsInLine = (t.tokens.toList.map Token.kind).getLast?.any fun k => !k.isStructural := by
    rw [Transcript.endsInLine, List.getLast?_map, Array.getLast?_toList, Option.any_map]
    rfl
  rw [hlast, hlast, ← hkinds, h.tokens, hkinds]

theorem Relined.endMarks (h : Relined e r r') : r'.endMarks = r.endMarks := by
  have hends := Relined.endsInLine h.transcript
  obtain ⟨brackets, -, hlayout⟩ := h.layout
  unfold Reading.endMarks
  rw [hends, hlayout]

/-- The fault of a bracket that is open at the end of the text. -/
def unclosed (b : Bracket × Position) : LexicalFault := ⟨.unclosedBracket b.1, b.2, 1⟩

theorem faults_finish (r : Reading) :
    r.finish.faults.toList =
      r.transcript.faults.toList ++ r.layout.brackets.reverse.map unclosed := by
  rw [finish_eq, faults_foldl_mark, reportUnclosed, Array.toList_append]
  rfl

theorem Relined.finish (h : Relined e r r') :
    render .withoutOffsets r'.finish.tokens.toList = render .withoutOffsets r.finish.tokens.toList ∧
    render .withoutOffsets r'.finish.faults.toList =
      render .withoutOffsets r.finish.faults.toList := by
  constructor
  · rw [tokens_finish, tokens_finish, render_append, render_append, h.transcript.tokens, h.endMarks]
    have hmark (kind : TokenKind) :
        render .withoutOffsets (Token.mark kind r'.transcript.cursor.position) =
          render .withoutOffsets (Token.mark kind r.transcript.cursor.position) :=
      Transcript.render_token (fun _ => rfl) h.transcript.cursor.position
        h.transcript.cursor.position
    refine congrArg _ ?_
    change List.map _ _ = List.map _ _
    rw [List.map_map, List.map_map]
    exact List.map_congr_left fun kind _ => hmark kind
  · rw [faults_finish, faults_finish, render_append, render_append, h.transcript.faults]
    obtain ⟨brackets, hb, hlayout⟩ := h.layout
    rw [hlayout]
    refine congrArg _ ?_
    have hunclosed (bs : List (Bracket × Position)) :
        render .withoutOffsets (bs.reverse.map unclosed) =
          (render .withoutOffsets bs).reverse.map unclosed := by
      change List.map _ _ = List.map _ (List.map _ bs).reverse
      rw [← List.map_reverse, List.map_map, List.map_map]
      rfl
    rw [hunclosed, hunclosed, hb]

/-- More rounds than a text needs make no difference. -/
theorem transcribe_eq {n : Nat} (h : 2 * text.length + 1 ≤ n) :
    transcribe text = (rounds n (start text)).finish := by
  obtain ⟨m, rfl⟩ := Nat.exists_eq_add_of_le h
  have hend := rounds_rest_eq_nil (Nat.le_of_eq (roundsLeft_start text))
  rw [rounds_add, rounds_of_rest_isEmpty (List.isEmpty_iff.mpr hend), transcribe]

theorem transcribe_relined (he : IsLineEnd e) (h : '\r' ∉ text) :
    render .withoutOffsets (transcribe (relined e text)).tokens.toList =
        render .withoutOffsets (transcribe text).tokens.toList ∧
      render .withoutOffsets (transcribe (relined e text)).faults.toList =
        render .withoutOffsets (transcribe text).faults.toList := by
  have hold :=
    transcribe_eq (Nat.le_max_left (2 * text.length + 1) (2 * (relined e text).length + 1))
  have hnew :=
    transcribe_eq (Nat.le_max_right (2 * text.length + 1) (2 * (relined e text).length + 1))
  rw [hold, hnew]
  exact ((relined_start h).rounds he _).finish

end Reading

end AgentScript
