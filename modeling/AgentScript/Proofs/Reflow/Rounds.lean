import AgentScript.Proofs.LineEnds.Transcripts
import AgentScript.Proofs.Reading.CapturedBlocks
import AgentScript.Proofs.Reading.SideBySide

/-!
# Rounds that capture no block

A round that meets no marker of a block sees no more than the line it stands on, and it stays on
that line. What has been passed before it shows at most in whether a colon can begin an atom. How
many rounds a reading has gone makes no difference to what it comes to in the end.
-/
namespace AgentScript

open CharClass Lexeme

variable {text rest : List Char} {c : Char} {l : Layout}

namespace Round

/-- Two rounds are the same and stay on the line that the text begins with. -/
structure OneOnLine (text : List Char) (a b : Round) : Prop where
  eq : a = b
  le : Piece.total b.pieces ≤ (firstLine text).length

theorem oneOnLine_scan {s : Scanner} (h : StaysOnLine s text) (l : Layout) :
    OneOnLine text ⟨s (firstLine text), l⟩ ⟨s text, l⟩ :=
  ⟨by rw [h.eq], h.le⟩

theorem oneOnLine_bar (l : Layout) (hc : isLineBreak c = false)
    (hno : ∀ k n, ¬ BeginsWithMarker (c :: rest) k n) :
    OneOnLine (c :: rest) (bar l c (firstLine (c :: rest))) (bar l c (c :: rest)) := by
  have hone : 1 ≤ (firstLine (c :: rest)).length := by
    rw [firstLine_cons hc]
    exact Nat.succ_le_succ (Nat.zero_le _)
  unfold bar
  rw [chompingMarker?_firstLine]
  cases hm : chompingMarker? (c :: rest) with
  | none => exact ⟨rfl, hone⟩
  | some m =>
    obtain ⟨chomping, n⟩ := m
    have hblank : restIsBlank ((c :: rest).drop n) = false := by
      rw [Bool.eq_false_iff]
      exact fun hblank => hno _ _ (.multiline hm hblank)
    dsimp only
    rw [← firstLine_drop (le_of_chompingMarker? hm), restIsBlank_firstLine, hblank]
    simp only [Bool.false_eq_true, if_false]
    exact ite_related (fun _ => ⟨rfl, hone⟩) ⟨rfl, hone⟩

theorem oneOnLine_embeddedCode (l : Layout) (hno : ∀ k n, ¬ BeginsWithMarker ('$' :: rest) k n) :
    OneOnLine ('$' :: rest) (embeddedCode l (firstLine ('$' :: rest)))
      (embeddedCode l ('$' :: rest)) := by
  have hform : markerForm? (firstLine ('$' :: rest)) = markerForm? ('$' :: rest) :=
    markerForm?_firstLine rfl
  unfold embeddedCode
  rw [hform]
  cases hm : markerForm? ('$' :: rest) with
  | none => exact ⟨rfl, by simp [firstLine_cons (c := '$') rfl, Piece.width]⟩
  | some form =>
    cases form with
    | inline => exact oneOnLine_scan (staysOnLine_embedded_inline rfl _) l
    | block => exact absurd (.code rfl hm) (hno _ _)

/-- A round within a line that captures no block is told by the line alone. -/
theorem oneOnLine_within (hc : isLineBreak c = false)
    (hno : ∀ k n, ¬ BeginsWithMarker (c :: rest) k n) (l : Layout) (previous : Option Char)
    (p : Position) :
    OneOnLine (c :: rest) (within l previous p c (firstLine (c :: rest)))
      (within l previous p c (c :: rest)) := by
  have hone : 1 ≤ (firstLine (c :: rest)).length := by
    rw [firstLine_cons hc]
    exact Nat.succ_le_succ (Nat.zero_le _)
  have hmark {r : Round} (h : Piece.total r.pieces = 1) : OneOnLine (c :: rest) r r :=
    ⟨rfl, h.trans_le hone⟩
  refine within_related l l previous previous p p c _ _ ?space ?lineBreak ?comment ?string ?tag
    ?code ?bar ?colon ?dash ?opening ?closing ?mark ?number ?proper ?word ?other
  case space => exact fun _ => hmark rfl
  case lineBreak => exact fun hbreak => absurd hbreak (by simp [hc])
  case comment =>
    have hlength : lineLength (firstLine (c :: rest)) = lineLength (c :: rest) := by
      unfold lineLength spanLength
      exact congrArg List.length List.takeWhile_idem
    rw [hlength]
    exact fun _ => ⟨rfl, Nat.le_refl _⟩
  case string => exact fun _ => oneOnLine_scan (staysOnLine_quotedString hc) l
  case tag =>
    rintro rfl
    exact oneOnLine_scan (staysOnLine_typeTag _ rest) l
  case code =>
    rintro rfl
    exact oneOnLine_embeddedCode l hno
  case bar => exact oneOnLine_bar l hc hno
  case colon =>
    exact fun _ => ⟨colon_firstLine hc l previous rest, total_colon_le hc l previous rest⟩
  case dash => exact fun _ => ⟨dash_firstLine hc l rest, total_dash_le hc l rest⟩
  case opening => exact fun b _ => hmark rfl
  case closing => exact fun b _ => hmark (total_closeBracket l b)
  case mark => exact fun kind _ => hmark rfl
  case number => exact fun _ => oneOnLine_scan (staysOnLine_number _) l
  case proper => exact fun _ => ⟨properWord_firstLine hc l rest, total_properWord_le hc l rest⟩
  case word =>
    refine fun _ => ⟨word_firstLine l _, ?_⟩
    simpa [word, Piece.width] using onLine_wordLength.le (c :: rest)
  case other => exact hmark rfl

/-- Where no token of a round captures, no marker of a block was met. -/
theorem not_beginsWithMarker {cursor : Cursor} (hl : l.beginsLine = false)
    (hno : ∀ k ∈ Piece.kinds (next l cursor).pieces, k.captures? = none) (k : TokenKind) (n : Nat) :
    ¬ BeginsWithMarker cursor.rest k n := by
  intro h
  obtain ⟨content, hcontent⟩ : ∃ content, k.captures? = some content := by
    cases h with
    | multiline => exact ⟨_, rfl⟩
    | code => exact ⟨_, rfl⟩
  obtain ⟨faults, -, hnext⟩ := h.next_eq hl hcontent
  have hmem : k ∈ Piece.kinds (next l cursor).pieces := by
    rw [hnext, thenEndLine]
    simp [Piece.kinds]
  rw [hno k hmem] at hcontent
  cases hcontent

/-- What has been passed makes no difference to whether a colon begins an atom. -/
def PassedAlike (previous previous' : Option Char) : Prop :=
  ∀ text, startsAtom previous' text = startsAtom previous text

/-- The characters behind which an atom can begin. -/
def admitsAtom (c : Char) : Bool := isWhitespace c || c == ',' || (Bracket.ofOpener? c).isSome

theorem passedAlike_of_admitsAtom {previous previous' : Option Char}
    (h : previous.all admitsAtom = true) (h' : previous'.all admitsAtom = true) :
    PassedAlike previous previous' := by
  intro text
  change (previous'.all admitsAtom && _) = (previous.all admitsAtom && _)
  rw [h, h']

theorem within_passedAlike {previous previous' : Option Char} (h : PassedAlike previous previous')
    (l : Layout) (p : Position) (c : Char) (text : List Char) :
    within l previous' p c text = within l previous p c text := by
  have hcolon : colon l previous' text = colon l previous text := by
    unfold colon
    rw [h]
  unfold within
  rw [hcolon]

/-- The places of brackets and what was passed make no difference to what is read. -/
theorem next_alike_of_passedAlike {l l' : Layout} {cursor cursor' : Cursor}
    (hl : l'.unplaced = l.unplaced) (hrest : cursor'.rest = cursor.rest)
    (hpassed : PassedAlike cursor.previous cursor'.previous) :
    Alike (next l cursor) (next l' cursor') := by
  have hsame : next l' cursor' = next l' { cursor' with previous := cursor.previous } := by
    unfold next
    cases cursor'.rest with
    | nil => rfl
    | cons c rest =>
      dsimp only [Cursor.position]
      rw [within_passedAlike hpassed]
  rw [hsame]
  exact next_alike hl hrest fun _ => rfl

end Round

namespace Reading

variable {r r' : Reading}

/-- The transcript that the reading comes to when all its text is read. -/
def complete (r : Reading) : Transcript := (rounds r.roundsLeft r).finish

theorem rounds_one (h : r.rest ≠ []) : rounds 1 r = r.round := by
  rw [rounds, if_neg (by simpa using h)]
  rfl

theorem complete_start (text : List Char) : (start text).complete = transcribe text := rfl

theorem complete_of_rest_eq_nil (h : r.rest = []) : r.complete = r.finish := by
  rw [complete, rounds_of_rest_isEmpty (List.isEmpty_iff.mpr h)]

/-- More rounds than are left make no difference. -/
theorem rounds_eq_of_le {n : Nat} (h : r.roundsLeft ≤ n) : rounds n r = rounds r.roundsLeft r := by
  obtain ⟨m, rfl⟩ := Nat.exists_eq_add_of_le h
  have hend := rounds_rest_eq_nil (Nat.le_refl r.roundsLeft)
  rw [rounds_add, rounds_of_rest_isEmpty (List.isEmpty_iff.mpr hend)]

theorem complete_round (h : r.rest ≠ []) : r.round.complete = r.complete := by
  have hlt := roundsLeft_round_lt h
  obtain ⟨n, hn⟩ : ∃ n, r.roundsLeft = n + 1 := ⟨r.roundsLeft - 1, by omega⟩
  have hrounds : rounds n r.round = rounds r.round.roundsLeft r.round := rounds_eq_of_le (by omega)
  rw [complete, complete, hn, rounds, if_neg (by simpa using h), hrounds]

/-- How many rounds a reading has gone makes no difference to what it comes to. -/
theorem complete_rounds (n : Nat) (r : Reading) : (rounds n r).complete = r.complete :=
  rounds_induction (P := fun s => s.complete = r.complete)
    (fun _ hs h => (complete_round hs).trans h) n rfl

/-- What has been read stays read. -/
theorem tokens_isPrefix_complete (r : Reading) :
    r.transcript.tokens.toList <+: r.complete.tokens.toList := by
  have hrounds : r.transcript.tokens.toList <+:
      (rounds r.roundsLeft r).transcript.tokens.toList := by
    refine rounds_induction (P := fun s =>
      r.transcript.tokens.toList <+: s.transcript.tokens.toList) (fun s _ h => ?_) _
      (List.prefix_refl _)
    rw [tokens_round]
    exact h.trans (List.prefix_append _ _)
  rw [complete, tokens_finish]
  exact hrounds.trans (List.prefix_append _ _)

/-- The kinds that a round reads are kinds of tokens of the whole text. -/
theorem captures?_next (h : ∀ t ∈ r.complete.tokens.toList, t.kind.captures? = none)
    (hrest : r.rest ≠ []) :
    ∀ k ∈ Piece.kinds (Round.next r.layout r.transcript.cursor).pieces, k.captures? = none := by
  intro k hk
  rw [← Piece.kinds_tokens r.transcript.cursor] at hk
  obtain ⟨t, ht, rfl⟩ := List.mem_map.mp hk
  refine h t ?_
  rw [← complete_round hrest]
  refine (tokens_isPrefix_complete r.round).subset ?_
  rw [tokens_round]
  exact List.mem_append_right _ ht

/-- Two related readings come to related transcripts, if some rounds of each relate them again
until the text of the first is used up. -/
theorem complete_induction {R : Reading → Reading → Prop} {Q : Transcript → Transcript → Prop}
    (step : ∀ r r', R r r' → r.rest ≠ [] →
      ∃ k k', R (rounds k r) (rounds k' r') ∧ (rounds k r).roundsLeft < r.roundsLeft)
    (done : ∀ r r', R r r' → r.rest = [] → Q r.complete r'.complete) (h : R r r') :
    Q r.complete r'.complete := by
  induction hn : r.roundsLeft using Nat.strongRecOn generalizing r r' with
  | ind n ih =>
    by_cases hrest : r.rest = []
    · exact done r r' h hrest
    · obtain ⟨k, k', hnext, hlt⟩ := step r r' h hrest
      rw [← complete_rounds k r, ← complete_rounds k' r']
      exact ih _ (hn ▸ hlt) hnext rfl

end Reading

end AgentScript
