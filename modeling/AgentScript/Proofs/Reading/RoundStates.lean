import AgentScript.Proofs.Reading.Composites

/-!
# States of a reading

A reading goes on round by round as long as text is left. Every round takes a character or turns
from the beginning of a line to its inside, and at the beginning of a line no bracket is open. So
the rounds use up any text, within the bound that readings are given.
-/
namespace AgentScript

namespace Reading

/-- The states that the reading of a text passes through, with the number of rounds before each. -/
inductive After (text : List Char) : Nat → Reading → Prop
  | start : After text 0 (start text)
  | round {n : Nat} {r : Reading} (before : After text n r) (left : r.rest ≠ []) :
      After text (n + 1) r.round

/-- The number of characters passed. -/
def passed (r : Reading) : Nat := r.transcript.cursor.position.offset

variable {text : List Char} {n m : Nat} {r : Reading}

/-- A property of the start that every round keeps holds in every state. -/
theorem After.keeps {P : Reading → Prop} (h : After text n r) (hstart : P (Reading.start text))
    (hround : ∀ r, r.rest ≠ [] → P r → P r.round) : P r := by
  induction h with
  | start => exact hstart
  | round before left ih => exact hround _ left ih

theorem After.laid (h : After text n r) : r.Laid :=
  h.keeps (laid_start text) fun _ => laid_round

theorem After.follows (h : After text n r) : r.transcript.Follows text :=
  h.keeps (P := fun r => r.transcript.Follows text) (Transcript.follows_start text)
    fun _ _ => follows_round

/-- Between two rounds no type tag is open. -/
theorem After.outsideTags (h : After text n r) : r.layout.modes.OutsideTags :=
  (h.keeps (inPhrases_start text) fun _ _ h => h.round).modes

theorem After.passed_add_length (h : After text n r) :
    r.passed + r.rest.length = text.length := h.follows.along.offset_add_length

/-- Where brackets are open, no line begins, so the flag alone tells whether one does. -/
theorem Laid.beginsLine_eq (h : r.Laid) : r.layout.beginsLine = r.layout.atLineStart := by
  cases hstart : r.layout.atLineStart with
  | false => simp [Layout.beginsLine, hstart]
  | true => simp [Layout.beginsLine, hstart, (h.atStart hstart).1]

theorem passed_round (r : Reading) : r.round.passed = r.passed +
    min (Piece.total (Round.next r.layout r.transcript.cursor).pieces) r.rest.length := by
  unfold passed
  rw [round, Transcript.extendAll_cursor, Cursor.position_advance]
  rfl

/-- A round takes a character, or it turns from the beginning of a line to its inside. -/
theorem Laid.progress_round (h : r.Laid) (hrest : r.rest ≠ []) :
    r.passed < r.round.passed ∨
      r.layout.atLineStart = true ∧ r.round.layout.atLineStart = false := by
  have hlength : 0 < r.rest.length := List.length_pos_iff.mpr hrest
  rcases progress_of_form hrest (Round.next_form r.layout hrest) with htaken | hturns
  · left
    rw [passed_round]
    omega
  · right
    change r.round.layout.beginsLine.toNat < r.layout.beginsLine.toNat at hturns
    rw [(laid_round hrest h).beginsLine_eq, h.beginsLine_eq] at hturns
    cases hbefore : r.layout.atLineStart with
    | false =>
      rw [hbefore] at hturns
      exact absurd hturns (Nat.not_lt_zero _)
    | true =>
      rw [hbefore] at hturns
      exact ⟨rfl, by simpa [Nat.lt_one_iff] using hturns⟩

/-- The rounds behind a state and those to come stay within the bound of the text. -/
theorem After.add_roundsLeft_le (h : After text n r) :
    n + r.roundsLeft ≤ 2 * text.length + 1 := by
  induction h with
  | start => rw [roundsLeft_start, Nat.zero_add]
  | round before left ih =>
    have hless := roundsLeft_round_lt left
    omega

/-- Rounds stop in a state that is reached. -/
theorem After.rounds (h : After text n r) (limit : Nat) :
    ∃ m ≤ n + limit, After text m (rounds limit r) := by
  induction limit generalizing n r with
  | zero => exact ⟨n, Nat.le_refl n, h⟩
  | succ limit ih =>
    unfold Reading.rounds
    split_ifs with hend
    · exact ⟨n, Nat.le_add_right n _, h⟩
    · obtain ⟨m, hm, hreached⟩ := ih (h.round (by simpa using hend))
      exact ⟨m, by omega, hreached⟩

/-- The transcript of a text is finished in a state without text. -/
theorem exists_finish (text : List Char) :
    ∃ n r, After text n r ∧ r.rest = [] ∧ transcribe text = r.finish := by
  have hstart : After text 0 (start text) := .start
  obtain ⟨n, -, hreached⟩ := hstart.rounds (2 * text.length + 1)
  exact ⟨n, _, hreached, rounds_rest_eq_nil (Nat.le_of_eq (roundsLeft_start text)), rfl⟩

/-- The tokens of a text are those of its rounds one after another, and marks at the end. -/
theorem tokens_of_rounds {P : List Token → Prop}
    (happend : ∀ {ts us : List Token}, P ts → P us → P (ts ++ us))
    (hround : ∀ {n r}, After text n r →
      P (r.transcript.cursor.tokens (Round.next r.layout r.transcript.cursor).pieces))
    (hmarks : ∀ {kinds : List TokenKind}, (∀ kind ∈ kinds, kind ∈ [.newline, .dedent, .eof]) →
      ∀ p, P (kinds.map (Token.mark · p))) : P (transcribe text).tokens.toList := by
  have hafter {n r} (h : After text n r) : P r.transcript.tokens.toList := by
    induction h with
    | start => exact hmarks (List.forall_mem_nil _) Tracker.initial.position
    | round before left ih =>
      rw [tokens_round]
      exact happend ih (hround before)
  obtain ⟨n, r, h, -, heq⟩ := exists_finish text
  rw [heq, tokens_finish]
  exact happend (hafter h) (hmarks (forall_mem_endMarks (by simp) (by simp) (by simp) r) _)

/-- What the rounds that read a token of a kind make of it holds of all tokens of the kind. -/
theorem forall_tokens_of_kind {P : Token → Prop} {kind : TokenKind}
    (hkind : kind ∉ [TokenKind.newline, .dedent, .eof])
    (hround : ∀ {n r}, After text n r →
      kind ∈ Piece.kinds (Round.next r.layout r.transcript.cursor).pieces →
      ∀ t ∈ r.transcript.cursor.tokens (Round.next r.layout r.transcript.cursor).pieces, P t) :
    ∀ t ∈ (transcribe text).tokens.toList, t.kind = kind → P t := by
  refine tokens_of_rounds (P := fun ts => ∀ t ∈ ts, t.kind = kind → P t)
    (fun hts hus => List.forall_mem_append.mpr ⟨hts, hus⟩) ?_ ?_
  · intro n r h t ht hk
    refine hround h ?_ t ht
    rw [← Piece.kinds_tokens r.transcript.cursor, ← hk]
    exact List.mem_map_of_mem ht
  · intro kinds hkinds p
    refine List.forall_mem_map.mpr fun k hmem hk => absurd (hkinds k hmem) ?_
    exact (show k = kind from hk) ▸ hkind

/-- A reading that uses up its text in time. -/
structure Exhausts (text : List Char) : Prop where
  /-- At the beginning of a line no bracket is open. -/
  outside : ∀ {n r}, After text n r → r.layout.atLineStart = true → r.layout.brackets = []
  /-- A round takes a character, or it turns from the beginning of a line to its inside. -/
  progress : ∀ {n r}, After text n r → r.rest ≠ [] → r.passed < r.round.passed ∨
    r.layout.atLineStart = true ∧ r.round.layout.atLineStart = false
  /-- There are no more rounds than two a character, and one. -/
  bounded : ∀ {n r}, After text n r → n ≤ 2 * text.length + 1
  /-- The transcript is finished behind the last round, at the end of the text. -/
  ending : ∃ n r, After text n r ∧ r.rest = [] ∧ r.passed = text.length ∧
    transcribe text = r.finish

end Reading

open Reading in
/-- The rounds on every source use it up: each of them takes a character or begins the inside of a
line, and there are at most two a character, and one. -/
theorem rounds_exhaust (source : String) : Exhausts source.toList := by
  constructor
  case outside => exact fun h hstart => (h.laid.atStart hstart).1
  case progress => exact fun h hrest => h.laid.progress_round hrest
  case bounded => exact fun h => Nat.le_of_add_right_le h.add_roundsLeft_le
  case ending =>
    obtain ⟨n, r, h, hend, heq⟩ := exists_finish source.toList
    have hpassed := h.passed_add_length
    rw [hend] at hpassed
    exact ⟨n, r, h, hend, hpassed, heq⟩

end AgentScript
