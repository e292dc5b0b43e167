import AgentScript.Proofs.LineEnds.Transcripts

/-!
# Where tokens and errors stand

Tokens and errors stand at the points that a fresh tracker reaches on the text. A fault concerns
one character at least and never reaches beyond its line, so that the end of an error is found on
its line by counting.
-/
namespace AgentScript

open CharClass Lexeme

namespace Tracker

/-- On one line the tracker counts columns. -/
theorem position_read_line {text : List Char} (h : ∀ c ∈ text, isLineBreak c = false)
    (t : Tracker) : (t.read text).position = ⟨t.position.line, t.position.column + text.length,
      t.position.offset + text.length⟩ := by
  induction text generalizing t with
  | nil => rfl
  | cons c text ih =>
    obtain ⟨hc, htext⟩ := List.forall_mem_cons.mp h
    have hn : c ≠ '\n' := by rintro rfl; exact nomatch hc
    have hr : c ≠ '\r' := by rintro rfl; exact nomatch hc
    rw [read_cons, ih htext, List.length_cons]
    simp only [step, if_neg hn, if_neg hr, Position.mk.injEq, true_and]
    omega

/-- Columns are counted from one, and each character moves on by one column at most. -/
theorem column_read_le {t : Tracker} (h : t.position.column ≤ t.position.offset + 1)
    (text : List Char) :
    (t.read text).position.column ≤ (t.read text).position.offset + 1 := by
  induction text generalizing t with
  | nil => exact h
  | cons c text ih =>
    apply ih
    unfold step
    dsimp only
    split_ifs <;> dsimp only <;> omega

end Tracker

variable {text rest : List Char} {c : Char}

theorem offset_positionAt {n : Nat} (h : n ≤ text.length) : (positionAt text n).offset = n := by
  rw [positionAt, Tracker.read_offset, List.length_take]
  simp [Tracker.initial, Position.origin, h]

theorem column_positionAt_le (text : List Char) (n : Nat) :
    (positionAt text n).column ≤ (positionAt text n).offset + 1 :=
  Tracker.column_read_le (Nat.le_refl 1) _

/-- Two points of one line differ by the characters between them. -/
theorem positionAt_add {n m : Nat} (h : n ≤ text.length)
    (hline : m ≤ lineLength (text.drop n)) :
    positionAt text (n + m) =
      ⟨(positionAt text n).line, (positionAt text n).column + m, n + m⟩ := by
  have hbefore := offset_positionAt h
  have htake : (text.drop n).take m = (firstLine (text.drop n)).take m :=
    (take_firstLine hline).symm
  have hbreak : ∀ c ∈ (text.drop n).take m, isLineBreak c = false := by
    intro c hc
    rw [htake] at hc
    simpa using List.mem_takeWhile_imp (List.mem_of_mem_take hc)
  have hlength : ((text.drop n).take m).length = m := by
    rw [htake, List.length_take]
    exact Nat.min_eq_left hline
  unfold positionAt at hbefore ⊢
  rw [List.take_add, Tracker.read_append, Tracker.position_read_line hbreak, hlength, hbefore]

/-- A cursor stands at the position of the characters that it has passed. -/
theorem Cursor.Along.position_eq {c : Cursor} (h : c.Along text) :
    c.position = positionAt text c.position.offset := by
  obtain ⟨passed, htext, htracker⟩ := h
  have hoffset : c.position.offset = passed.length := by
    rw [Cursor.position, htracker, Tracker.read_offset]
    exact Nat.zero_add _
  rw [hoffset, positionAt, htext, List.take_left, ← htracker, Cursor.position]

namespace Piece

/-- A fault concerns some characters of the line that it stands on. -/
def Aims (text : List Char) : Piece → Prop
  | .fault _ n => 1 ≤ n ∧ n ≤ lineLength text
  | _ => True

/-- The faults among the pieces at the beginning of a text stay on their lines. -/
def AllAim : List Piece → List Char → Prop
  | [], _ => True
  | p :: ps, text => p.Aims text ∧ AllAim ps (text.drop p.width)

@[simp] theorem allAim_nil : AllAim [] text := trivial

@[simp] theorem allAim_skip {n : Nat} {ps : List Piece} :
    AllAim (.skip n :: ps) text ↔ AllAim ps (text.drop n) := by simp [AllAim, Aims, width]

@[simp] theorem allAim_token {kind : TokenKind} {n : Nat} {ps : List Piece} :
    AllAim (.token kind n :: ps) text ↔ AllAim ps (text.drop n) := by simp [AllAim, Aims, width]

@[simp] theorem allAim_fault {cause : LexicalCause} {n : Nat} {ps : List Piece} :
    AllAim (.fault cause n :: ps) text ↔ (1 ≤ n ∧ n ≤ lineLength text) ∧ AllAim ps text := Iff.rfl

@[simp] theorem allAim_append {ps qs : List Piece} :
    AllAim (ps ++ qs) text ↔ AllAim ps text ∧ AllAim qs (text.drop (total ps)) := by
  induction ps generalizing text with
  | nil => simp
  | cons p ps ih => simp [AllAim, ih, and_assoc]

end Piece

open Piece

namespace Lexeme

/-- The faults of the scanner stay on their lines. -/
def AimsOnLine (s : Scanner) : Prop := ∀ text, AllAim (s text) text

theorem AimsOnLine.andThen {first second : Scanner} (h : AimsOnLine first)
    (h' : AimsOnLine second) : AimsOnLine (Scanner.andThen first second) := fun text => by
  simpa [Scanner.andThen] using ⟨h text, h' _⟩

theorem AimsOnLine.sequence {scanners : List Scanner} (h : ∀ s ∈ scanners, AimsOnLine s) :
    AimsOnLine (Scanner.sequence scanners) := by
  induction scanners with
  | nil => exact fun _ => trivial
  | cons s rest ih =>
    obtain ⟨hs, hrest⟩ := List.forall_mem_cons.mp h
    exact hs.andThen (ih hrest)

theorem aimsOnLine_skipping (length : List Char → Nat) : AimsOnLine (Scanner.skipping length) :=
  fun _ => by simp [Scanner.skipping]

theorem aimsOnLine_tokenOf (kind : TokenKind) (length : List Char → Nat) :
    AimsOnLine (Scanner.tokenOf kind length) := fun text => by
  by_cases h : length text = 0 <;> simp [Scanner.tokenOf, h]

theorem aimsOnLine_tagText (kind : TokenKind) (isDelimiter : Char → Bool) :
    AimsOnLine (tagText kind isDelimiter) := fun text => by
  by_cases h : trimmedLength (text.takeWhile fun c => !isDelimiter c) = 0 <;> simp [tagText, h]

theorem aimsOnLine_tagModifier : AimsOnLine tagModifier := by
  intro text
  unfold tagModifier
  split
  · refine AimsOnLine.sequence ?_ _
    simp only [List.forall_mem_cons, List.not_mem_nil, false_imp_iff, implies_true, and_true]
    exact ⟨fun _ => by simp, aimsOnLine_skipping _, aimsOnLine_tagText _ _⟩
  · trivial

theorem aimsOnLine_openTag (mode : Mode) : AimsOnLine (openTag mode) := by
  refine AimsOnLine.sequence ?_
  simp only [List.forall_mem_cons, List.not_mem_nil, false_imp_iff, implies_true, and_true]
  exact ⟨fun _ => by simp, aimsOnLine_skipping _, fun text => aimsOnLine_tokenOf _ _ text,
    aimsOnLine_skipping _, aimsOnLine_tagText _ _, aimsOnLine_tagModifier⟩

/-- A tag that is not closed ends with its line. -/
theorem allAim_typeTag (mode : Mode) (rest : List Char) :
    AllAim (typeTag mode ('<' :: rest)) ('<' :: rest) := by
  have hopen := aimsOnLine_openTag mode ('<' :: rest)
  have hpos := total_openTag_pos mode ('<' :: rest)
  have hle := (staysOnLine_openTag mode rest).le
  rw [length_firstLine] at hle
  simp only [typeTag]
  split
  · simpa using hopen
  · simpa using ⟨⟨hpos, hle⟩, hopen⟩

theorem aimsOnLine_capturedLines (content : TokenKind) (base fuel : Nat) :
    AimsOnLine (capturedLines content base fuel) := by
  induction fuel with
  | zero => exact fun _ => trivial
  | succ fuel ih =>
    intro text
    by_cases h : (text.isEmpty || !captures base text) = true
    · simp [capturedLines, h]
    · simpa [capturedLines, h, ← List.drop_drop] using ih _

/-- Only a line on which something is left is not blank. -/
theorem lineLength_pos_of_restIsBlank (h : restIsBlank text = false) : 1 ≤ lineLength text := by
  cases text with
  | nil => exact nomatch h
  | cons c rest =>
    cases hc : isLineBreak c with
    | false => exact lineLength_pos hc rest
    | true => rcases eq_of_isLineBreak hc with rfl | rfl <;> exact nomatch h

theorem aimsOnLine_capturedBlock (content : TokenKind) (base : Nat) :
    AimsOnLine (capturedBlock content base) := fun text => by
  have hlines := aimsOnLine_capturedLines content base
    (text.drop (lineLength text + breakLength (text.drop (lineLength text)))).length
    (text.drop (lineLength text + breakLength (text.drop (lineLength text))))
  rw [← List.drop_drop] at hlines
  cases hblank : restIsBlank text with
  | true => simpa [capturedBlock, hblank, ← List.drop_drop] using hlines
  | false =>
    have hpos := lineLength_pos_of_restIsBlank hblank
    simpa [capturedBlock, hblank, hpos, ← List.drop_drop] using hlines

section

variable (hc : isLineBreak c = false)

include hc

theorem allAim_quotedString (rest : List Char) : AllAim (quotedString (c :: rest)) (c :: rest) := by
  have hpos := total_quotedString_pos (c :: rest)
  have hle : total (quotedString (c :: rest)) ≤ _ := (staysOnLine_quotedString hc).le
  rw [length_firstLine] at hle
  unfold quotedString at hpos hle ⊢
  dsimp only at hpos hle ⊢
  split_ifs with hclosed
  · simp
  · simpa [hclosed, width, Nat.one_le_iff_ne_zero, Nat.pos_iff_ne_zero] using And.intro hpos hle

theorem allAim_marker (form : MarkerForm) (rest : List Char) :
    AllAim (marker form (c :: rest)) (c :: rest) := by
  obtain ⟨-, -, hle⟩ : _ ∧ _ ∧ markerLength (c :: rest) ≤ _ := marker_firstLine hc
  have hpos : 1 ≤ markerLength (c :: rest) := by
    unfold markerLength
    omega
  rw [length_firstLine] at hle
  by_cases h : isKnownLanguage (String.ofList (markerLanguage (c :: rest))) = true <;>
    simp [marker, h, hpos, hle]

theorem allAim_embedded (form : MarkerForm) (base : Nat) (rest : List Char) :
    AllAim (embedded form base (c :: rest)) (c :: rest) := by
  have hmarker := allAim_marker hc form rest
  cases form with
  | inline =>
    have hcode : AimsOnLine inlineCode := (aimsOnLine_skipping _).andThen (aimsOnLine_tokenOf _ _)
    simpa [embedded, Scanner.andThen] using ⟨hmarker, hcode _⟩
  | block =>
    have hblock := aimsOnLine_capturedBlock .embeddedCode base
    simpa [embedded, Scanner.andThen] using ⟨hmarker, hblock _⟩

end

end Lexeme

/-- A line without indentation is consistent: it closes all levels above zero. -/
theorem Reindent.ofWidth_zero_consistent (levels : List Nat) :
    (ofWidth levels 0).consistent = true := by
  have hlanding : (levels.drop (levels.takeWhile (0 < ·)).length).headD 0 = 0 := by
    induction levels with
    | nil => rfl
    | cons level more ih =>
      by_cases h : level = 0
      · simp [h]
      · simpa [Nat.pos_of_ne_zero h] using ih
  unfold ofWidth
  dsimp only
  rw [hlanding]
  split_ifs <;> rfl

namespace Round

theorem allAim_replicate_dedent (n : Nat) : AllAim (List.replicate n (.token .dedent 0)) text := by
  induction n with
  | zero => trivial
  | succ n ih => simpa [List.replicate_succ] using ih

theorem allAim_indentation (levels : List Nat) (text : List Char) :
    AllAim (indentation (Reindent.ofWidth levels (blankLength text)) (blankLength text)) text := by
  have hle := onLine_blankLength.le text
  rw [length_firstLine] at hle
  unfold indentation
  split_ifs with hopens hconsistent
  · simp
  · simpa using allAim_replicate_dedent _
  · have hpos : blankLength text ≠ 0 := by
      intro hzero
      rw [hzero] at hconsistent
      exact hconsistent (Reindent.ofWidth_zero_consistent levels)
    simpa [hle, Nat.one_le_iff_ne_zero.mpr hpos] using allAim_replicate_dedent _

theorem allAim_endLine (l : Layout) (n : Nat) : AllAim (endLine l n).pieces text := by
  by_cases h : l.brackets.isEmpty <;> simp [endLine, h]

theorem allAim_thenEndLine {pieces : List Piece} (h : AllAim pieces text) (l : Layout) :
    AllAim (thenEndLine pieces l).pieces text := by
  simpa [thenEndLine] using ⟨h, allAim_endLine l 0⟩

section

variable (hc : isLineBreak c = false) (l : Layout) (rest : List Char)

include hc

theorem allAim_unexpected : AllAim (unexpected l c).pieces (c :: rest) := by
  simpa [unexpected] using Nat.succ_le_of_lt (lineLength_pos hc rest)

theorem allAim_dash (hdash : c = '-') : AllAim (dash l (c :: rest)).pieces (c :: rest) := by
  unfold dash
  split
  · trivial
  · trivial
  · split_ifs
    · trivial
    · trivial
    · rw [← hdash]
      exact allAim_unexpected hc l rest

theorem allAim_closeBracket (b : Bracket) : AllAim (closeBracket l b).pieces (c :: rest) := by
  have hpos : 1 ≤ lineLength (c :: rest) := lineLength_pos hc rest
  unfold closeBracket
  dsimp only
  split
  · simpa using hpos
  · split_ifs
    · trivial
    · simpa using hpos

theorem allAim_embeddedCode : AllAim (embeddedCode l (c :: rest)).pieces (c :: rest) := by
  unfold embeddedCode
  split
  · simpa using Nat.succ_le_of_lt (lineLength_pos hc rest)
  · exact allAim_embedded hc .inline l.lineWidth rest
  · exact allAim_thenEndLine (allAim_embedded hc .block l.lineWidth rest) l

theorem allAim_bar : AllAim (bar l c (c :: rest)).pieces (c :: rest) := by
  unfold bar
  split
  · exact allAim_unexpected hc l rest
  · split_ifs
    · exact allAim_thenEndLine (allAim_token.mpr (aimsOnLine_capturedBlock _ _ _)) l
    · trivial
    · exact allAim_unexpected hc l rest

theorem allAim_within (previous : Option Char) (p : Position) :
    AllAim (within l previous p c (c :: rest)).pieces (c :: rest) := by
  refine within_cases (motive := fun r => AllAim r.pieces (c :: rest)) l previous p c (c :: rest)
    ?space ?lineBreak ?comment ?string ?tag ?code ?bar ?colon ?dash ?opening ?closing ?mark ?number
    ?proper ?word ?other
  case space => simp
  case lineBreak => exact fun _ => allAim_endLine l _
  case comment => simp
  case string => exact fun _ => allAim_quotedString hc rest
  case tag =>
    rintro rfl
    dsimp only
    exact allAim_typeTag _ rest
  case code => exact fun _ => allAim_embeddedCode hc l rest
  case bar => exact allAim_bar hc l rest
  case colon =>
    intro _
    by_cases h : startsAtom previous (c :: rest) = true <;> simp [colon, single, h]
  case dash => exact allAim_dash hc l rest
  case opening => simp [openBracket]
  case closing => exact fun b _ => allAim_closeBracket hc l rest b
  case mark => simp [single]
  case number => simp [number]
  case proper =>
    intro _
    obtain ⟨kind, n, heq, -, -⟩ := exists_single_properWord l (c :: rest)
    rw [heq]
    trivial
  case word => simp [word]
  case other => exact allAim_unexpected hc l rest

end

/-- The faults of a round stay on their lines. -/
theorem allAim_next (l : Layout) (cursor : Cursor) :
    AllAim (next l cursor).pieces cursor.rest := by
  refine next_cases (motive := fun r => AllAim r.pieces cursor.rest) l cursor (fun _ => trivial)
    (fun _ => ?_) fun c rest hrest _ => ?_
  · exact beginLine_cases (motive := fun r => AllAim r.pieces cursor.rest) l cursor.rest
      (fun _ => by simp) fun _ => allAim_indentation _ _
  · rw [hrest]
    cases hc : isLineBreak c with
    | true =>
      rw [within_break hc]
      exact allAim_endLine l _
    | false => exact allAim_within hc l rest _ _

@[simp] theorem brackets_endLine (l : Layout) (n : Nat) :
    (endLine l n).layout.brackets = l.brackets := by
  unfold endLine
  split_ifs <;> rfl

@[simp] theorem brackets_thenEndLine (pieces : List Piece) (l : Layout) :
    (thenEndLine pieces l).layout.brackets = l.brackets := brackets_endLine l 0

@[simp] theorem brackets_embeddedCode (l : Layout) (text : List Char) :
    (embeddedCode l text).layout.brackets = l.brackets := by
  unfold embeddedCode
  split <;> simp

@[simp] theorem brackets_bar (l : Layout) (c : Char) (text : List Char) :
    (bar l c text).layout.brackets = l.brackets := by
  unfold bar
  split
  · rfl
  · split_ifs <;> simp [single, unexpected]

@[simp] theorem brackets_colon (l : Layout) (previous : Option Char) (text : List Char) :
    (colon l previous text).layout.brackets = l.brackets := by
  obtain ⟨modes, hmodes⟩ := afterColon_eq l text.tail
  unfold colon
  split_ifs <;> simp [single, hmodes]

@[simp] theorem brackets_dash (l : Layout) (text : List Char) :
    (dash l text).layout.brackets = l.brackets := by
  unfold dash
  split
  · rfl
  · rfl
  · split_ifs <;> rfl

@[simp] theorem brackets_properWord (l : Layout) (text : List Char) :
    (properWord l text).layout.brackets = l.brackets := by
  obtain ⟨kind, n, heq, -, -⟩ := exists_single_properWord l text
  rw [heq, single]

@[simp] theorem brackets_word (l : Layout) (text : List Char) :
    (word l text).layout.brackets = l.brackets := by
  unfold word
  dsimp only
  split_ifs <;> rfl

theorem brackets_within (hc : isLineBreak c = false) (l : Layout) (previous : Option Char)
    (p : Position) (rest : List Char) : ∀ b ∈ (within l previous p c (c :: rest)).layout.brackets,
      b ∈ l.brackets ∨ b.2 = p ∧ 1 ≤ lineLength (c :: rest) := by
  refine within_cases (motive := fun r => ∀ b ∈ r.layout.brackets, b ∈ l.brackets ∨
    b.2 = p ∧ 1 ≤ lineLength (c :: rest)) l previous p c (c :: rest) ?space ?lineBreak ?comment
    ?string ?tag ?code ?bar ?colon ?dash ?opening ?closing ?mark ?number ?proper ?word ?other
  case opening =>
    intro b _ b' hb'
    rcases List.mem_cons.mp hb' with rfl | hb'
    · exact .inr ⟨rfl, lineLength_pos hc rest⟩
    · exact .inl hb'
  case closing => exact fun b _ b' hb' => .inl (List.mem_of_mem_tail hb')
  all_goals simp +contextual [single, unexpected]

/-- A round opens brackets at its own position only, before a character of the line. -/
theorem brackets_next (l : Layout) (cursor : Cursor) :
    ∀ b ∈ (next l cursor).layout.brackets,
      b ∈ l.brackets ∨ b.2 = cursor.position ∧ 1 ≤ lineLength cursor.rest := by
  refine next_cases (motive := fun r => ∀ b ∈ r.layout.brackets,
    b ∈ l.brackets ∨ b.2 = cursor.position ∧ 1 ≤ lineLength cursor.rest) l cursor
    (fun _ b hb => .inl hb) (fun _ => ?_) fun c rest hrest _ => ?_
  · have hsame : (beginLine l cursor.rest).layout.brackets = l.brackets :=
      beginLine_cases (motive := fun r => r.layout.brackets = l.brackets) l cursor.rest
        (fun _ => rfl) fun _ => rfl
    rw [hsame]
    exact fun b hb => .inl hb
  · rw [hrest]
    cases hc : isLineBreak c with
    | true =>
      rw [within_break hc, brackets_endLine]
      exact fun b hb => .inl hb
    | false => exact brackets_within hc l _ _ rest

end Round

/-- The token begins and ends at points that the tracker reaches. -/
structure Token.Stands (text : List Char) (t : Token) : Prop where
  start : t.start = positionAt text t.start.offset
  stop : t.stop = positionAt text t.stop.offset

/-- The fault stands at a point that the tracker reaches, and stays on the line there. -/
structure LexicalFault.Stands (text : List Char) (f : LexicalFault) : Prop where
  position : f.position = positionAt text f.position.offset
  pos : 1 ≤ f.length
  onLine : f.length ≤ lineLength (text.drop f.position.offset)

/-- Everything in the transcript stands where the tracker says. -/
structure Transcript.Stands (text : List Char) (t : Transcript) : Prop where
  along : t.cursor.Along text
  tokens : ∀ k ∈ t.tokens.toList, k.Stands text
  faults : ∀ f ∈ t.faults.toList, f.Stands text

namespace Transcript

variable {t : Transcript}

theorem stands_start (text : List Char) : (start text).Stands text :=
  ⟨Cursor.along_atStart text, by simp [start], by simp [start]⟩

/-- What concerns characters of the line before the cursor stands there. -/
theorem Stands.fault_stands (h : t.Stands text) (cause : LexicalCause) {n : Nat} (hpos : 1 ≤ n)
    (hline : n ≤ lineLength t.cursor.rest) :
    LexicalFault.Stands text ⟨cause, t.cursor.position, n⟩ :=
  ⟨h.along.position_eq, hpos, h.along.rest_eq_drop ▸ hline⟩

theorem Stands.extend (h : t.Stands text) {p : Piece} (hp : p.Aims t.cursor.rest) :
    (t.extend p).Stands text := by
  have hafter := h.along.advance p.width
  cases p with
  | skip n => exact ⟨hafter, h.tokens, h.faults⟩
  | token kind n =>
    refine ⟨hafter, ?_, h.faults⟩
    intro k hk
    rcases List.mem_append.mp (Array.toList_push ▸ hk) with hk | hk
    · exact h.tokens k hk
    · rw [List.mem_singleton.mp hk]
      exact ⟨h.along.position_eq, hafter.position_eq⟩
  | fault cause n =>
    refine ⟨h.along, h.tokens, ?_⟩
    intro f hf
    rcases List.mem_append.mp (Array.toList_push ▸ hf) with hf | hf
    · exact h.faults f hf
    · rw [List.mem_singleton.mp hf]
      exact h.fault_stands cause hp.1 hp.2

theorem Stands.extendAll (h : t.Stands text) {ps : List Piece} (hps : AllAim ps t.cursor.rest) :
    (t.extendAll ps).Stands text := by
  induction ps generalizing t with
  | nil => exact h
  | cons p ps ih =>
    refine ih (h.extend hps.1) ?_
    rw [extend_cursor, Cursor.advance_rest]
    exact hps.2

end Transcript

namespace Reading

/-- The transcript stands, and so does every bracket that is still open. -/
structure Stands (text : List Char) (r : Reading) : Prop where
  transcript : r.transcript.Stands text
  brackets : ∀ b ∈ r.layout.brackets, (unclosed b).Stands text

variable {r : Reading}

theorem stands_start (text : List Char) : (start text).Stands text :=
  ⟨Transcript.stands_start text, by simp [start, Layout.initial]⟩

theorem Stands.round (h : r.Stands text) : r.round.Stands text where
  transcript := h.transcript.extendAll (Round.allAim_next _ _)
  brackets b hb := by
    rcases Round.brackets_next _ _ b hb with hb | ⟨hb, hline⟩
    · exact h.brackets b hb
    · unfold unclosed
      rw [hb]
      exact h.transcript.fault_stands _ (Nat.le_refl 1) hline

theorem Stands.finish (h : r.Stands text) : r.finish.Stands text where
  along := cursor_finish r ▸ h.transcript.along
  tokens k hk := by
    rw [tokens_finish] at hk
    rcases List.mem_append.mp hk with hk | hk
    · exact h.transcript.tokens k hk
    · obtain ⟨kind, -, rfl⟩ := List.mem_map.mp hk
      exact ⟨h.transcript.along.position_eq, h.transcript.along.position_eq⟩
  faults f hf := by
    rw [faults_finish] at hf
    rcases List.mem_append.mp hf with hf | hf
    · exact h.transcript.faults f hf
    · obtain ⟨b, hb, rfl⟩ := List.mem_map.mp hf
      exact h.brackets b (List.mem_reverse.mp hb)

theorem stands_transcribe (text : List Char) : (transcribe text).Stands text := by
  obtain ⟨r, h, -, heq⟩ := transcribe_induction (P := fun r => r.Stands text) (stands_start text)
    fun r _ h => h.round
  rw [heq]
  exact h.finish

end Reading

/-- The error stands at a point of the text and concerns characters of one line, at least one; its
location runs between the points before and behind them. -/
structure LexicalError.Stands (text : List Char) (e : LexicalError) : Prop where
  position : e.position = positionAt text e.position.offset
  pos : 1 ≤ e.length
  inside : e.position.offset + e.length ≤ text.length
  onLine : ∀ c ∈ (text.drop e.position.offset).take e.length, isLineBreak c = false
  location : e.location = ⟨positionAt text e.position.offset,
    positionAt text (e.position.offset + e.length)⟩

theorem LexicalFault.Stands.toError {f : LexicalFault} (h : f.Stands text)
    (hsize : text.length < limit32 - 1) (file : Option String) :
    (f.toError file).Stands text := by
  have hinside : f.position.offset + f.length ≤ text.length := by
    have hline := h.onLine
    have hle := Lexeme.spanLength_le (fun c => !isLineBreak c) (text.drop f.position.offset)
    have hpos := h.pos
    rw [List.length_drop] at hle
    unfold lineLength at hline
    omega
  have hpoint := positionAt_add (Nat.le_of_add_right_le hinside) h.onLine
  have hcolumn := column_positionAt_le text f.position.offset
  rw [← h.position] at hpoint hcolumn
  constructor
  case position => exact h.position
  case pos => exact h.pos
  case inside => exact hinside
  case onLine =>
    intro c hc
    change c ∈ (text.drop f.position.offset).take f.length at hc
    rw [← take_firstLine h.onLine] at hc
    simpa using List.mem_takeWhile_imp (List.mem_of_mem_take hc)
  case location =>
    have hsize64 : text.length < limit64 := hsize.trans (by decide)
    change Location.mk f.position ⟨f.position.line, (f.position.column + f.length) % limit32,
      (f.position.offset + f.length) % limit64⟩ = ⟨positionAt text f.position.offset,
        positionAt text (f.position.offset + f.length)⟩
    rw [hpoint, ← h.position, Nat.mod_eq_of_lt (by omega), Nat.mod_eq_of_lt (by omega)]

/-- In a source of fewer than `2 ^ 32 - 1` characters all tokens and errors stand where a fresh
tracker says, and every error ends on its line. -/
theorem lexical_positions (source : String) (file : Option String)
    (h : source.length < limit32 - 1) :
    (∀ t ∈ (TokenizedText.ofLabelledSource source file).tokens, t.Stands source.toList) ∧
      ∀ e ∈ (TokenizedText.ofLabelledSource source file).errors, e.Stands source.toList := by
  have hstands := Reading.stands_transcribe source.toList
  refine ⟨hstands.tokens, fun e he => ?_⟩
  obtain ⟨f, hf, rfl⟩ := List.mem_map.mp he
  exact (hstands.faults f hf).toError (String.length_toList.trans_lt h) file

/-- A string that its line does not close, in a bracket that nothing closes. -/
theorem lexical_positions_of_unclosed :
    (TokenizedText.ofLabelledSource "k: [\"" none).errors.length = 2 ∧
      (∀ t ∈ (TokenizedText.ofLabelledSource "k: [\"" none).tokens, t.Stands "k: [\"".toList) ∧
      ∀ e ∈ (TokenizedText.ofLabelledSource "k: [\"" none).errors, e.Stands "k: [\"".toList :=
  ⟨by decide +kernel, lexical_positions "k: [\"" none (by decide)⟩

end AgentScript
