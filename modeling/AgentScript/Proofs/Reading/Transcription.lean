import AgentScript.Proofs.Reading.RoundForm
import Mathlib.Data.List.Chain

/-!
# Transcripts follow their text

Each round takes a character or begins a line, so twice the text that is left, plus one
at the beginning of a line, bounds the rounds to come. A property that every round keeps
therefore holds of a state from which the transcript of the whole text is finished.

The cursor of a transcript stands at a point of the text, and its position is that of the
characters passed. Every token carries exactly the characters between its ends, and the
tokens stand in the order of the text without overlapping.
-/
namespace AgentScript

namespace Reading

/-- A bound on the rounds to come. -/
def roundsLeft (r : Reading) : Nat := 2 * r.rest.length + r.layout.beginsLine.toNat

/-- A round takes a character, or it begins a line. -/
theorem progress_of_form {l : Layout} {text : List Char} {next : Round} (ht : text ≠ [])
    (h : Round.Form l text next) :
    0 < Piece.total next.pieces ∨ next.layout.beginsLine.toNat < l.beginsLine.toNat := by
  cases h with
  | blank =>
    have hpos := Lexeme.lineLength_add_breakLength_pos ht
    left
    simpa [Piece.width, Nat.add_pos_iff_pos_or_pos] using hpos
  | indented begins =>
    right
    rw [begins]
    exact Nat.zero_lt_one
  | within inside _ _ inLine progress => exact .inl progress
  | ended inside closed inLine progress =>
    left
    simpa [Piece.width, Nat.add_pos_iff_pos_or_pos] using progress

/-- Within a line a round takes a character. -/
theorem progress_of_within {r : Reading} (hrest : r.rest ≠ [])
    (hinside : r.layout.beginsLine = false) :
    0 < Piece.total (Round.next r.layout r.transcript.cursor).pieces := by
  refine (progress_of_form hrest (Round.next_form r.layout hrest)).resolve_right fun hlt => ?_
  rw [hinside] at hlt
  exact Nat.not_lt_zero _ hlt

theorem roundsLeft_round_lt {r : Reading} (h : r.rest ≠ []) :
    r.round.roundsLeft < r.roundsLeft := by
  have hlen : 0 < r.rest.length := List.length_pos_iff.mpr h
  have hrest : r.round.rest.length =
      r.rest.length - Piece.total (Round.next r.layout r.transcript.cursor).pieces := by
    rw [round_rest, List.length_drop]
  have hafter := Bool.toNat_le r.round.layout.beginsLine
  have hprogress := progress_of_form h (Round.next_form r.layout h)
  change 0 < _ ∨ r.round.layout.beginsLine.toNat < _ at hprogress
  unfold roundsLeft
  omega

theorem rounds_rest_eq_nil {n : Nat} {r : Reading} (h : r.roundsLeft ≤ n) :
    (rounds n r).rest = [] := by
  induction n generalizing r with
  | zero =>
    have hlen : r.rest.length = 0 := by
      unfold roundsLeft at h
      omega
    exact List.length_eq_zero_iff.mp hlen
  | succ n ih =>
    unfold rounds
    split_ifs with he
    · exact List.isEmpty_iff.mp he
    · have hlt := roundsLeft_round_lt (r := r) (by simpa using he)
      exact ih (by omega)

theorem roundsLeft_start (text : List Char) : (start text).roundsLeft = 2 * text.length + 1 := rfl

/-- A property that every round on a text keeps is kept by all rounds together. -/
theorem rounds_induction {P : Reading → Prop} (step : ∀ r, r.rest ≠ [] → P r → P r.round)
    (n : Nat) {r : Reading} (h : P r) : P (rounds n r) := by
  induction n generalizing r with
  | zero => exact h
  | succ n ih =>
    unfold rounds
    split_ifs with he
    · exact h
    · exact ih (step r (by simpa using he) h)

/-- The transcript of a text is finished in a state without text that has every property of
the start that rounds keep. -/
theorem transcribe_induction {P : Reading → Prop} {text : List Char} (h : P (start text))
    (step : ∀ r, r.rest ≠ [] → P r → P r.round) :
    ∃ r, P r ∧ r.rest = [] ∧ transcribe text = r.finish :=
  ⟨rounds (2 * text.length + 1) (start text), rounds_induction step _ h,
    rounds_rest_eq_nil (Nat.le_of_eq (roundsLeft_start text)), rfl⟩

end Reading

/-- The order of points of one text, which positions and offsets agree on. -/
def Position.Before (p q : Position) : Prop := p ≤ q ∧ p.offset ≤ q.offset

namespace Position.Before

protected theorem refl (p : Position) : p.Before p := ⟨Position.le_refl p, Nat.le_refl _⟩

protected theorem trans {p q r : Position} (h : p.Before q) (h' : q.Before r) : p.Before r :=
  ⟨Position.le_trans h.1 h'.1, Nat.le_trans h.2 h'.2⟩

end Position.Before

namespace Tracker

theorem position_lt_step (t : Tracker) (c : Char) : t.position < (t.step c).position := by
  rw [Position.lt_iff]
  unfold step
  dsimp only
  split_ifs <;> dsimp only <;> omega

theorem position_before_step (t : Tracker) (c : Char) : t.position.Before (t.step c).position := by
  refine ⟨?_, by rw [step_offset]; omega⟩
  intro hback
  exact Position.lt_irrefl _ (Position.lt_trans (t.position_lt_step c) hback)

theorem position_before_read (t : Tracker) (text : List Char) :
    t.position.Before (t.read text).position := by
  induction text generalizing t with
  | nil => exact .refl _
  | cons c text ih => exact (t.position_before_step c).trans (ih (t.step c))

end Tracker

namespace Cursor

/-- The cursor stands in the text, at the position of the characters passed. -/
def Along (text : List Char) (c : Cursor) : Prop :=
  ∃ passed, text = passed ++ c.rest ∧ c.tracker = Tracker.initial.read passed

theorem along_atStart (text : List Char) : (atStart text).Along text := ⟨[], rfl, rfl⟩

variable {text : List Char} {c : Cursor}

theorem Along.advance (h : c.Along text) (n : Nat) : (c.advance n).Along text := by
  obtain ⟨passed, htext, htracker⟩ := h
  refine ⟨passed ++ c.rest.take n, ?_, ?_⟩
  · rw [advance_rest, List.append_assoc, List.take_append_drop, htext]
  · rw [advance_tracker, Tracker.read_append, htracker]

theorem Along.offset_add_length (h : c.Along text) :
    c.position.offset + c.rest.length = text.length := by
  obtain ⟨passed, htext, htracker⟩ := h
  have hoffset : c.position.offset = passed.length := by
    rw [position, htracker, Tracker.read_offset]
    exact Nat.zero_add _
  rw [hoffset, htext, List.length_append]

theorem Along.rest_eq_drop (h : c.Along text) : c.rest = text.drop c.position.offset := by
  have hlen := h.offset_add_length
  obtain ⟨passed, htext, -⟩ := h
  have hpassed : c.position.offset = passed.length := by
    have := congrArg List.length htext
    rw [List.length_append] at this
    omega
  rw [hpassed, htext, List.drop_left]

theorem position_advance (c : Cursor) (n : Nat) :
    (c.advance n).position.offset = c.position.offset + min n c.rest.length := by
  rw [position, advance_tracker, Tracker.read_offset, List.length_take]
  rfl

theorem position_before_advance (c : Cursor) (n : Nat) :
    c.position.Before (c.advance n).position := by
  unfold position
  rw [advance_tracker]
  exact c.tracker.position_before_read _

end Cursor

/-- The token carries the characters between its ends. -/
structure Token.Reads (text : List Char) (t : Token) : Prop where
  ordered : t.start.Before t.stop
  inside : t.stop.offset ≤ text.length
  exact : t.text.toList = (text.drop t.start.offset).take (t.stop.offset - t.start.offset)

/-- One token ends before the other begins. -/
def Token.Precedes (a b : Token) : Prop := a.stop.Before b.start

namespace Transcript

/-- What is known of a transcript at any time of a reading. -/
structure Follows (text : List Char) (t : Transcript) : Prop where
  along : t.cursor.Along text
  reads : ∀ k ∈ t.tokens.toList, k.Reads text
  ordered : t.tokens.toList.IsChain Token.Precedes
  passed : ∀ k ∈ t.tokens.toList, k.stop.Before t.cursor.position

variable {text : List Char} {t : Transcript}

theorem follows_start (text : List Char) : (start text).Follows text :=
  ⟨Cursor.along_atStart text, by simp [start], by simp [start], by simp [start]⟩

theorem Follows.push (h : t.Follows text) {kind : TokenKind} (n : Nat) :
    (t.extend (.token kind n)).Follows text := by
  have hbefore := t.cursor.position_before_advance n
  have hrest := h.along.rest_eq_drop
  have hlen := h.along.offset_add_length
  have hafter := t.cursor.position_advance n
  have hlen' := (h.along.advance n).offset_add_length
  refine ⟨h.along.advance n, ?_, ?_, ?_⟩
  · intro k hk
    simp only [extend, Array.toList_push, List.mem_append, List.mem_singleton] at hk
    rcases hk with hk | rfl
    · exact h.reads k hk
    · refine ⟨hbefore, by dsimp only; omega, ?_⟩
      rw [String.toList_ofList, hrest, hafter, Nat.add_sub_cancel_left]
      rw [List.take_eq_take_iff, List.length_drop]
      omega
  · simp only [extend, Array.toList_push]
    refine h.ordered.append (List.isChain_singleton _) ?_
    intro a ha b hb
    cases hb
    exact h.passed a (List.mem_of_getLast? ha)
  · intro k hk
    simp only [extend, Array.toList_push, List.mem_append, List.mem_singleton] at hk
    rcases hk with hk | rfl
    · exact (h.passed k hk).trans hbefore
    · exact .refl _

theorem Follows.extend (h : t.Follows text) (p : Piece) : (t.extend p).Follows text := by
  cases p with
  | skip n =>
    exact ⟨h.along.advance n, h.reads, h.ordered,
      fun k hk => (h.passed k hk).trans (t.cursor.position_before_advance n)⟩
  | token kind n => exact h.push n
  | fault cause n => exact ⟨h.along, h.reads, h.ordered, h.passed⟩

theorem Follows.extendAll (h : t.Follows text) (ps : List Piece) :
    (t.extendAll ps).Follows text := by
  induction ps generalizing t with
  | nil => exact h
  | cons p ps ih => exact ih (h.extend p)

/-- A mark is a token over no characters. -/
theorem mark_eq_extend (t : Transcript) (kind : TokenKind) :
    t.mark kind = t.extend (.token kind 0) := rfl

theorem Follows.mark (h : t.Follows text) (kind : TokenKind) : (t.mark kind).Follows text :=
  t.mark_eq_extend kind ▸ h.push 0

end Transcript

namespace Reading

variable {text : List Char}

/-- The marks at the end of a transcript: the end of an open line, the ends of all levels,
and the end of the text. -/
def endMarks (r : Reading) : List TokenKind :=
  (if r.transcript.endsInLine then [.newline] else []) ++
    (List.replicate r.layout.levels.length .dedent ++ [.eof])

theorem forall_mem_endMarks {P : TokenKind → Prop} (hnewline : P .newline) (hdedent : P .dedent)
    (heof : P .eof) (r : Reading) : ∀ k ∈ r.endMarks, P k := by
  intro k hk
  unfold endMarks at hk
  rcases List.mem_append.mp hk with hk | hk
  · split_ifs at hk
    · rwa [List.mem_singleton.mp hk]
    · cases hk
  · rcases List.mem_append.mp hk with hk | hk
    · rwa [(List.mem_replicate.mp hk).2]
    · rwa [List.mem_singleton.mp hk]

theorem isStructural_of_mem_endMarks : ∀ r : Reading, ∀ k ∈ r.endMarks, k.isStructural = true :=
  forall_mem_endMarks rfl rfl rfl

theorem repeat_mark (n : Nat) (kind : TokenKind) (t : Transcript) :
    n.repeat (·.mark kind) t = (List.replicate n kind).foldl Transcript.mark t := by
  induction n with
  | zero => rfl
  | succ n ih => rw [Nat.repeat, ih, List.replicate_succ', List.foldl_concat]

theorem finish_eq (r : Reading) :
    r.finish = r.endMarks.foldl Transcript.mark
      (reportUnclosed r.layout.brackets r.transcript) := by
  have hends : (reportUnclosed r.layout.brackets r.transcript).endsInLine =
      r.transcript.endsInLine := rfl
  simp only [finish, closeLevels, endMarks, List.foldl_append, repeat_mark, hends]
  split_ifs <;> rfl

theorem tokens_foldl_mark (t : Transcript) (marks : List TokenKind) :
    (marks.foldl Transcript.mark t).tokens.toList =
      t.tokens.toList ++ marks.map (Token.mark · t.cursor.position) := by
  induction marks generalizing t with
  | nil => simp
  | cons k marks ih =>
    rw [List.foldl_cons, ih]
    simp [Transcript.mark]

theorem tokens_finish (r : Reading) :
    r.finish.tokens.toList =
      r.transcript.tokens.toList ++ r.endMarks.map (Token.mark · r.transcript.cursor.position) := by
  rw [finish_eq, tokens_foldl_mark]
  rfl

theorem follows_foldl_mark {t : Transcript} (h : t.Follows text) (marks : List TokenKind) :
    (marks.foldl Transcript.mark t).Follows text := by
  induction marks generalizing t with
  | nil => exact h
  | cons k marks ih => exact ih (h.mark k)

theorem follows_finish {r : Reading} (h : r.transcript.Follows text) : r.finish.Follows text := by
  have hreport : (reportUnclosed r.layout.brackets r.transcript).Follows text :=
    ⟨h.along, h.reads, h.ordered, h.passed⟩
  rw [finish_eq]
  exact follows_foldl_mark hreport _

theorem follows_round {r : Reading} (h : r.transcript.Follows text) :
    r.round.transcript.Follows text := h.extendAll _

/-- The transcript of a whole text follows it. -/
theorem follows_transcribe (text : List Char) : (transcribe text).Follows text := by
  obtain ⟨r, h, -, heq⟩ := transcribe_induction (P := fun r => r.transcript.Follows text)
    (Transcript.follows_start text) fun r _ h => follows_round h
  rw [heq]
  exact follows_finish h

end Reading

end AgentScript
