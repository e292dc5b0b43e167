import AgentScript.Proofs.Reading.Brackets
import AgentScript.Proofs.Reflow.Rounds

/-!
# Corresponding readings

Two readings that stand before the same text go on to read the same tokens and report the same, at
corresponding positions. What correspondence means is left open: it need only last from one
character to the next.
-/
namespace AgentScript

open CharClass Lexeme

variable {P : Position → Position → Prop}

/-- Two trackers at corresponding positions. -/
structure Tracker.Corresponds (P : Position → Position → Prop) (t t' : Tracker) : Prop where
  position : P t.position t'.position
  afterReturn : t'.afterReturn = t.afterReturn

/-- Positions that correspond still do so behind one more character. -/
def Lasting (P : Position → Position → Prop) : Prop :=
  ∀ t t' : Tracker, t.Corresponds P t' → ∀ c, P (t.step c).position (t'.step c).position

/-- Tokens of the same kind and text at corresponding positions. -/
structure Token.Corresponds (P : Position → Position → Prop) (t t' : Token) : Prop where
  kind : t'.kind = t.kind
  text : t'.text = t.text
  start : P t.start t'.start
  stop : P t.stop t'.stop

theorem Token.Corresponds.mark {p p' : Position} (h : P p p') (kind : TokenKind) :
    Corresponds P (.mark kind p) (.mark kind p') := ⟨rfl, rfl, h, h⟩

theorem Token.kinds_of_corresponds {ts ts' : List Token} (h : List.Forall₂ (Corresponds P) ts ts') :
    ts'.map kind = ts.map kind := by
  induction h with
  | nil => rfl
  | cons ht _ ih => rw [List.map_cons, List.map_cons, ht.kind, ih]

theorem Tracker.Corresponds.step (hP : Lasting P) {t t' : Tracker} (h : t.Corresponds P t')
    (c : Char) : (t.step c).Corresponds P (t'.step c) := by
  refine ⟨hP t t' h c, ?_⟩
  unfold Tracker.step
  rw [h.afterReturn]
  dsimp only
  split_ifs <;> rfl

/-- Two cursors before the same text at corresponding positions. -/
structure Cursor.Corresponds (P : Position → Position → Prop) (c c' : Cursor) : Prop where
  rest : c'.rest = c.rest
  tracker : c.tracker.Corresponds P c'.tracker
  passed : Round.PassedAlike c.previous c'.previous

namespace Cursor

variable {c c' : Cursor}

theorem Corresponds.advance (hP : Lasting P) (h : c.Corresponds P c') (n : Nat) :
    (c.advance n).Corresponds P (c'.advance n) :=
  advance_related (fun _ _ h => h.rest)
    (fun _ _ x _ h => ⟨rfl, h.tracker.step hP x, fun _ => rfl⟩) h n

theorem Corresponds.tokens (hP : Lasting P) (h : c.Corresponds P c') (ps : List Piece) :
    List.Forall₂ (Token.Corresponds P) (c.tokens ps) (c'.tokens ps) :=
  tokens_related (fun _ _ h => h.rest) (fun _ _ h => h.advance hP)
    (fun _ _ h _ _ n => ⟨rfl, rfl, h.tracker.position, (h.advance hP n).tracker.position⟩) h ps

end Cursor

namespace Piece

/-- The causes of the faults among pieces. -/
def causes (ps : List Piece) : List LexicalCause :=
  ps.filterMap fun
    | .fault cause _ => some cause
    | _ => none

theorem causes_faults (c : Cursor) (ps : List Piece) :
    (c.faults ps).map (·.cause) = causes ps := by
  induction ps generalizing c with
  | nil => rfl
  | cons p ps ih => cases p <;> simp [Cursor.faults, causes] <;> exact ih _

end Piece

namespace Transcript

def causes (t : Transcript) : List LexicalCause := t.faults.toList.map (·.cause)

/-- Both transcripts have gained the same tokens at corresponding positions, and the same faults. -/
def GainAlike (P : Position → Position → Prop) (t t' s s' : Transcript) : Prop :=
  ∃ new new' more, s.tokens.toList = t.tokens.toList ++ new ∧
    s'.tokens.toList = t'.tokens.toList ++ new' ∧ List.Forall₂ (Token.Corresponds P) new new' ∧
    s.causes = t.causes ++ more ∧ s'.causes = t'.causes ++ more

variable {t t' s s' u u' : Transcript}

theorem GainAlike.refl (P : Position → Position → Prop) (t t' : Transcript) :
    GainAlike P t t' t t' := ⟨[], [], [], by simp, by simp, .nil, by simp, by simp⟩

theorem GainAlike.trans (h : GainAlike P t t' s s') (h' : GainAlike P s s' u u') :
    GainAlike P t t' u u' := by
  obtain ⟨new, new', more, hnew, hnew', hsame, hmore, hmore'⟩ := h
  obtain ⟨later, later', last, hlater, hlater', hsame', hlast, hlast'⟩ := h'
  refine ⟨new ++ later, new' ++ later', more ++ last, ?_, ?_, List.rel_append hsame hsame', ?_, ?_⟩
  · rw [hlater, hnew, List.append_assoc]
  · rw [hlater', hnew', List.append_assoc]
  · rw [hlast, hmore, List.append_assoc]
  · rw [hlast', hmore', List.append_assoc]

theorem GainAlike.kinds (h : GainAlike P t t' s s') (hkinds : t'.kinds = t.kinds) :
    s'.kinds = s.kinds := by
  obtain ⟨new, new', -, hnew, hnew', hsame, -⟩ := h
  unfold Transcript.kinds at hkinds ⊢
  rw [hnew, hnew', List.map_append, List.map_append, hkinds, Token.kinds_of_corresponds hsame]

end Transcript

theorem Layout.openBrackets_unplaced (l : Layout) : l.unplaced.openBrackets = l.openBrackets := by
  simp [openBrackets, unplaced, Function.comp_def]

namespace Reading

open Transcript

/-- Two readings before the same text at corresponding positions, in layouts that agree but for
places. -/
structure Corresponds (P : Position → Position → Prop) (r r' : Reading) : Prop where
  layout : r'.layout.unplaced = r.layout.unplaced
  cursor : r.transcript.cursor.Corresponds P r'.transcript.cursor

variable {r r' : Reading}

theorem causes_round (r : Reading) : r.round.transcript.causes =
    r.transcript.causes ++ Piece.causes (Round.next r.layout r.transcript.cursor).pieces := by
  rw [causes, faults_round, List.map_append, Piece.causes_faults]
  rfl

theorem causes_finish (r : Reading) : r.finish.causes =
    r.transcript.causes ++ r.layout.openBrackets.reverse.map .unclosedBracket := by
  rw [causes, faults_finish, List.map_append, Layout.openBrackets, List.map_map,
    ← List.map_reverse, List.map_map]
  rfl

theorem endMarks_congr (hlayout : r'.layout.levels.length = r.layout.levels.length)
    (hkinds : r'.transcript.kinds = r.transcript.kinds) : r'.endMarks = r.endMarks := by
  rw [endMarks, endMarks, endsInLine_eq, endsInLine_eq, hlayout, hkinds]

theorem Corresponds.round (hP : Lasting P) (h : r.Corresponds P r') :
    r.round.Corresponds P r'.round ∧
      GainAlike P r.transcript r'.transcript r.round.transcript r'.round.transcript := by
  obtain ⟨hpieces, hlayout⟩ := Round.mk.inj
    (Round.next_alike_of_passedAlike h.layout h.cursor.rest h.cursor.passed)
  refine ⟨⟨hlayout, ?_⟩, _, _, _, r.tokens_round, r'.tokens_round, ?_, r.causes_round, ?_⟩
  · rw [cursor_round, cursor_round, hpieces]
    exact h.cursor.advance hP _
  · rw [hpieces]
    exact h.cursor.tokens hP _
  · rw [causes_round, hpieces]

/-- Where the text is used up, the same lines, levels and brackets are closed. -/
theorem Corresponds.finish (h : r.Corresponds P r')
    (hkinds : r'.transcript.kinds = r.transcript.kinds) :
    GainAlike P r.transcript r'.transcript r.finish r'.finish := by
  have hlevels : r'.layout.unplaced.levels = r.layout.unplaced.levels :=
    congrArg Layout.levels h.layout
  have hbrackets : r'.layout.openBrackets = r.layout.openBrackets := by
    rw [← Layout.openBrackets_unplaced, h.layout, Layout.openBrackets_unplaced]
  have hmarks : r'.endMarks = r.endMarks := endMarks_congr (congrArg List.length hlevels) hkinds
  refine ⟨_, _, _, r.tokens_finish, r'.tokens_finish, ?_, r.causes_finish, ?_⟩
  · rw [hmarks, List.forall₂_map_left_iff, List.forall₂_map_right_iff]
    exact List.forall₂_same.mpr fun k _ => .mark h.cursor.tracker.position k
  · rw [causes_finish, hbrackets]

/-- Corresponding readings go on to read the same. -/
theorem Corresponds.complete (hP : Lasting P) (h : r.Corresponds P r')
    (hkinds : r'.transcript.kinds = r.transcript.kinds) :
    GainAlike P r.transcript r'.transcript r.complete r'.complete := by
  refine complete_induction
    (R := fun s s' => s.Corresponds P s' ∧
      GainAlike P r.transcript r'.transcript s.transcript s'.transcript)
    (Q := GainAlike P r.transcript r'.transcript) ?step ?done ⟨h, .refl P _ _⟩
  case step =>
    rintro s s' ⟨hs, hgain⟩ hrest
    obtain ⟨hround, hmore⟩ := hs.round hP
    have hrest' : s'.rest ≠ [] := fun hnil => hrest (hs.cursor.rest.symm.trans hnil)
    refine ⟨1, 1, ?_, ?_⟩
    · rw [rounds_one hrest, rounds_one hrest']
      exact ⟨hround, hgain.trans hmore⟩
    · rw [rounds_one hrest]
      exact roundsLeft_round_lt hrest
  case done =>
    rintro s s' ⟨hs, hgain⟩ hrest
    have hrest' : s'.rest = [] := hs.cursor.rest.trans hrest
    rw [complete_of_rest_eq_nil hrest, complete_of_rest_eq_nil hrest']
    exact hgain.trans (hs.finish (hgain.kinds hkinds))

end Reading

end AgentScript
