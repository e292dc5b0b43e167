import AgentScript.Proofs.Reading.CapturedBlocks
import AgentScript.Proofs.Reading.LogicalLines

/-!
# Reading a captured block

A reading that stands before a marker reads the whole block in one round. The marker's line is as
deep as the logical line on which it stands, so the tokens behind the marker are the physical lines
below it, up to the first one that is neither blank nor deeper; all that is read later stands on
later lines.
-/
namespace AgentScript

open CharClass Lexeme PhysicalLine TokenKind

variable {text rest : List Char} {n : Nat} {kind content : TokenKind} {marker : Token}
  {before after : List Token}

theorem Piece.tokens_of_faults {ps : List Piece} (h : ∀ p ∈ ps, ∃ cause m, p = .fault cause m)
    (c : Cursor) : c.tokens ps = [] ∧ Piece.total ps = 0 := by
  induction ps with
  | nil => exact ⟨rfl, rfl⟩
  | cons p ps ih =>
    obtain ⟨⟨cause, m, rfl⟩, hps⟩ := List.forall_mem_cons.mp h
    simpa [Piece.width] using ih hps

theorem Piece.tokens_markerLineFaults (text : List Char) (c : Cursor) :
    c.tokens (markerLineFaults text) = [] ∧ Piece.total (markerLineFaults text) = 0 := by
  refine tokens_of_faults (fun p hp => ?_) c
  unfold markerLineFaults at hp
  split_ifs at hp
  · exact nomatch hp
  · exact ⟨_, _, List.mem_singleton.mp hp⟩

theorem Round.total_endLine (l : Layout) (n : Nat) : Piece.total (endLine l n).pieces = n := by
  unfold endLine
  split_ifs <;> simp [Piece.width]

/-- The tokens carry the texts of the lines, one token a line. -/
def Carry (content : TokenKind) (ts : List Token) (ls : List PhysicalLine) : Prop :=
  ts.map (fun t => (t.kind, t.text)) = ls.map fun l => (content, String.ofList l.text)

theorem Carry.length_eq {ts : List Token} {ls : List PhysicalLine} (h : Carry content ts ls) :
    ts.length = ls.length := by
  simpa using congrArg List.length h

theorem Carry.kinds {ts : List Token} {ls : List PhysicalLine} (h : Carry content ts ls) :
    ts.map Token.kind = List.replicate ls.length content := by
  have hkinds := congrArg (List.map Prod.fst) h
  rw [List.map_map, List.map_map] at hkinds
  exact hkinds.trans List.map_const'

namespace Reading

variable {r : Reading} {line : PhysicalLine} {run : List PhysicalLine}

/-- The reading stands before a marker. Behind it there are what is left of its line, the lines
that it captures, and the rest of the text. -/
structure BeforeBlock (r : Reading) (kind content : TokenKind) (n : Nat) (line : PhysicalLine)
    (run : List PhysicalLine) (rest : List Char) : Prop where
  inside : r.layout.beginsLine = false
  marker : BeginsWithMarker r.rest kind n
  content : kind.captures? = some content
  behind : r.rest.drop n = line.chars ++ (join run ++ rest)
  ended : line.Before (join run ++ rest)
  parted : Parted run rest
  captured : ∀ l ∈ run, l.isCaptured r.layout.lineWidth = true
  stop : rest = [] ∨ captures r.layout.lineWidth rest = false

/-- The cursor behind the block. -/
def behindBlock (r : Reading) (n : Nat) (line : PhysicalLine) (run : List PhysicalLine) : Cursor :=
  ((r.transcript.cursor.advance n).advance line.chars.length).advance (join run).length

/-- What ends the line behind the block: a mark, or nothing within brackets. -/
def lineEnd (r : Reading) (n : Nat) (line : PhysicalLine) (run : List PhysicalLine) : List Token :=
  (r.behindBlock n line run).tokens (Round.endLine r.layout 0).pieces

/-- The token of the marker. -/
def markerToken (r : Reading) (kind : TokenKind) (n : Nat) : Token :=
  ⟨kind, String.ofList (r.rest.take n), r.transcript.cursor.position,
    (r.transcript.cursor.advance n).position⟩

theorem kind_of_mem_lineEnd {t : Token} (h : t ∈ r.lineEnd n line run) : t.kind = newline := by
  have hk := List.mem_map_of_mem (f := Token.kind) h
  rw [lineEnd, Piece.kinds_tokens] at hk
  unfold Round.endLine at hk
  split_ifs at hk
  · exact List.mem_singleton.mp hk
  · exact nomatch hk

namespace BeforeBlock

variable (h : r.BeforeBlock kind content n line run rest)

include h

theorem rest_behindMarker :
    (r.transcript.cursor.advance n).rest = line.chars ++ (join run ++ rest) := by
  rw [Cursor.advance_rest]
  exact h.behind

theorem rest_behindLine :
    ((r.transcript.cursor.advance n).advance line.chars.length).rest = join run ++ rest := by
  rw [Cursor.advance_rest, h.rest_behindMarker, List.drop_left]

theorem rest_behindBlock : (r.behindBlock n line run).rest = rest := by
  rw [behindBlock, Cursor.advance_rest, h.rest_behindLine, List.drop_left]

theorem tracker_behindBlock : (r.behindBlock n line run).tracker =
    ((r.transcript.cursor.advance n).tracker.read line.chars).read (join run) := by
  rw [behindBlock, Cursor.advance_tracker, h.rest_behindLine, Cursor.advance_tracker,
    h.rest_behindMarker, List.take_left, List.take_left]

/-- The pieces of the round: the marker, the block and the end of the line. -/
theorem pieces_next : ∃ faults : List Piece, (∀ p ∈ faults, ∃ cause m, p = .fault cause m) ∧
    Round.next r.layout r.transcript.cursor = Round.thenEndLine (faults ++ .token kind n ::
      (markerLineFaults (r.rest.drop n) ++ .skip line.text.length :: .skip line.ending.length ::
        run.flatMap (pieces content))) r.layout := by
  obtain ⟨faults, hfaults, hnext⟩ := h.marker.next_eq h.inside h.content
  have hblock : capturedBlock content r.layout.lineWidth (line.chars ++ (join run ++ rest)) = _ :=
    capturedBlock_join h.ended h.parted h.captured h.stop
  rw [← h.behind] at hblock
  refine ⟨faults, hfaults, ?_⟩
  rw [← hblock]
  exact hnext

/-- The round reads the block and ends the line behind it. -/
theorem round_eq : r.round.layout = (Round.endLine r.layout 0).layout ∧
    r.round.transcript.cursor = r.behindBlock n line run ∧
    ∃ contents : List Token,
      r.round.transcript.tokens.toList = r.transcript.tokens.toList ++ r.markerToken kind n ::
        (contents ++ r.lineEnd n line run) ∧ Carry content contents run := by
  obtain ⟨faults, hfaults, hnext⟩ := h.pieces_next
  obtain ⟨hno, hnone⟩ := Piece.tokens_of_faults hfaults r.transcript.cursor
  obtain ⟨hno', hnone'⟩ := Piece.tokens_markerLineFaults (r.rest.drop n)
    (r.transcript.cursor.advance n)
  have hline : line.chars.length = line.text.length + line.ending.length := List.length_append
  refine ⟨?_, ?_, _, ?_, tokens_pieces h.rest_behindLine⟩
  · rw [Reading.round, hnext]
    rfl
  · simp only [Reading.round, hnext, Round.thenEndLine, Transcript.extendAll_cursor,
      Piece.total_append, Piece.total_cons, Piece.width, hnone, hnone', total_pieces,
      Round.total_endLine, behindBlock, hline, ← Cursor.advance_add]
    congr 1
    omega
  · simp only [Reading.round, hnext, Round.thenEndLine, Transcript.tokens_extendAll]
    simp only [Cursor.tokens_append, Cursor.tokens, Piece.total_append, Piece.total_cons,
      Piece.width, hno, hnone, hno', hnone', total_pieces, List.nil_append, List.cons_append,
      Cursor.advance_zero, lineEnd, behindBlock, hline, ← Cursor.advance_add, Nat.zero_add]
    simp [markerToken, Reading.rest, Nat.add_assoc]

/-- The marker stands on one line, so its end is no carriage return. -/
theorem tracker_behindMarker :
    (r.transcript.cursor.advance n).tracker.position.line = r.transcript.cursor.position.line ∧
      (r.transcript.cursor.advance n).tracker.afterReturn = false := by
  have hmark := h.marker.unbroken
  have hne : r.rest.take n ≠ [] := by
    obtain ⟨x, more, hmore, -⟩ := h.marker.exists_cons
    have hpos := h.marker.length_pos
    simp [hmore, Nat.ne_of_gt hpos]
  rw [Cursor.advance_tracker]
  refine ⟨?_, Tracker.afterReturn_read_line hmark hne _⟩
  change (r.transcript.cursor.tracker.read (r.rest.take n)).position.line = _
  rw [Tracker.position_read_line hmark]
  rfl

/-- The block is read over as many lines as it has, if something follows it. -/
theorem line_behindBlock (hrest : rest ≠ []) :
    (r.behindBlock n line run).position.line =
      r.transcript.cursor.position.line + 1 + run.length := by
  obtain ⟨hmarker, hreturn⟩ := h.tracker_behindMarker
  have hclear : (r.transcript.cursor.advance n).tracker.Clear
      (line.chars ++ (join run ++ rest)) := by simp [Tracker.Clear, hreturn]
  have hfollows : join run ++ rest ≠ [] := by simp [hrest]
  obtain ⟨hline, hclear⟩ := Tracker.line_read_chars h.ended (h.ended.ending_ne_nil hfollows) hclear
  obtain ⟨hlines, -⟩ := Tracker.line_read_join h.parted hrest hclear
  rw [Cursor.position, h.tracker_behindBlock, hlines, hline, hmarker]

end BeforeBlock

/-- A token of two lists in a row is in the first or in the second one. -/
theorem append_eq_append_cons {α : Type} {l m before after : List α} {x : α}
    (h : l ++ m = before ++ x :: after) :
    (∃ more, l = before ++ x :: more ∧ after = more ++ m) ∨
      ∃ more, before = l ++ more ∧ m = more ++ x :: after := by
  rcases List.append_eq_append_iff.mp h with ⟨more, rfl, hm⟩ | ⟨more, rfl, hm⟩
  · exact .inr ⟨more, rfl, hm⟩
  · cases more with
    | nil => exact .inr ⟨[], by simp, by simpa using hm.symm⟩
    | cons y more =>
      obtain ⟨rfl, rfl⟩ := List.cons.inj hm
      exact .inl ⟨more, rfl, rfl⟩

/-- The reading has read the tokens `before` and the marker comes next. -/
structure StandsBefore (r : Reading) (before : List Token) (marker : Token) (n : Nat) : Prop where
  inside : r.layout.beginsLine = false
  begins : BeginsWithMarker r.rest marker.kind n
  tokens : r.transcript.tokens.toList = before
  token : r.markerToken marker.kind n = marker

/-- Behind the marker a round reads nothing that captures. -/
theorem tokens_markerRound (hinside : r.layout.beginsLine = false)
    (hmarker : BeginsWithMarker r.rest kind n) (hcontent : kind.captures? = some content) :
    ∃ more : List Token, r.transcript.cursor.tokens
        (Round.next r.layout r.transcript.cursor).pieces = r.markerToken kind n :: more ∧
      ∀ t ∈ more, t.kind.captures? = none := by
  obtain ⟨faults, hfaults, hnext⟩ := hmarker.next_eq hinside hcontent
  obtain ⟨hno, hnone⟩ := Piece.tokens_of_faults hfaults r.transcript.cursor
  have hkinds (c : Cursor) : ∀ t ∈ c.tokens (capturedBlock content r.layout.lineWidth
      (r.rest.drop n) ++ (Round.endLine r.layout 0).pieces), t.kind.captures? = none := by
    intro t ht
    have hk := List.mem_map_of_mem (f := Token.kind) ht
    rw [Piece.kinds_tokens, Piece.kinds_append] at hk
    rcases List.mem_append.mp hk with hk | hk
    · rw [kinds_capturedBlock _ _ _ _ hk]
      rcases captures?_eq_some.mp hcontent with ⟨-, rfl⟩ | ⟨-, rfl⟩ <;> rfl
    · exact Round.captures?_endLine _ _ _ hk
  refine ⟨_, ?_, hkinds (r.transcript.cursor.advance n)⟩
  simp only [hnext, Round.thenEndLine, List.append_assoc, Cursor.tokens_append faults, hno, hnone]
  rfl

/-- Every token of a line was read by a round. -/
theorem exists_round {t : Token} (ht : t.isStructural = false)
    (h : (transcribe text).tokens.toList = before ++ t :: after) :
    ∃ m earlier later, (rounds m (start text)).rest ≠ [] ∧
      before = (rounds m (start text)).transcript.tokens.toList ++ earlier ∧
      (rounds m (start text)).transcript.cursor.tokens (Round.next (rounds m (start text)).layout
        (rounds m (start text)).transcript.cursor).pieces = earlier ++ t :: later := by
  have hrounds (k : Nat) : ∀ after,
      (rounds k (start text)).transcript.tokens.toList = before ++ t :: after →
        ∃ m earlier later, (rounds m (start text)).rest ≠ [] ∧
          before = (rounds m (start text)).transcript.tokens.toList ++ earlier ∧
          (rounds m (start text)).transcript.cursor.tokens
            (Round.next (rounds m (start text)).layout
              (rounds m (start text)).transcript.cursor).pieces = earlier ++ t :: later := by
    induction k with
    | zero =>
      intro after hstart
      exact absurd (congrArg List.length hstart) (by simp [rounds, start, Transcript.start])
    | succ k ih =>
      intro after htokens
      rw [rounds_add k 1] at htokens
      by_cases hrest : (rounds k (start text)).rest.isEmpty
      · rw [rounds_of_rest_isEmpty hrest] at htokens
        exact ih _ htokens
      · rw [rounds, if_neg hrest, rounds, tokens_round] at htokens
        rcases append_eq_append_cons htokens with ⟨more, hmore, -⟩ | ⟨more, hbefore, hnew⟩
        · exact ih _ hmore
        · exact ⟨k, more, after, by simpa using hrest, hbefore, hnew⟩
  rw [transcribe, tokens_finish] at h
  rcases append_eq_append_cons h with ⟨more, hmore, -⟩ | ⟨more, -, hmarks⟩
  · exact hrounds _ _ hmore
  · obtain ⟨k, hk, rfl⟩ := List.mem_map.mp (hmarks ▸ (by simp : t ∈ more ++ t :: after))
    cases ht.symm.trans (isStructural_of_mem_endMarks _ k hk)

/-- Every marker among the tokens of a text was the next token at some time. -/
theorem exists_standsBefore (hcontent : marker.kind.captures? = some content)
    (h : (transcribe text).tokens.toList = before ++ marker :: after) :
    ∃ m n, (rounds m (start text)).StandsBefore before marker n := by
  have hword : marker.isStructural = false := by
    rw [Token.isStructural]
    rcases captures?_eq_some.mp hcontent with ⟨⟨c, hk⟩, -⟩ | ⟨hk, -⟩ <;> rw [hk] <;> rfl
  obtain ⟨m, earlier, later, -, hbefore, hnew⟩ := exists_round hword h
  refine ⟨m, ?_⟩
  generalize rounds m (start text) = r at hbefore hnew ⊢
  have hkind : marker.kind ∈ Piece.kinds (Round.next r.layout r.transcript.cursor).pieces := by
    rw [← Piece.kinds_tokens r.transcript.cursor, hnew]
    simp
  obtain ⟨hinside, n, hmarker⟩ := Round.beginsWithMarker_of_mem hkind hcontent
  obtain ⟨others, hround, hothers⟩ := tokens_markerRound hinside hmarker hcontent
  rw [hround] at hnew
  cases earlier with
  | nil =>
    obtain ⟨htoken, -⟩ := List.cons.inj hnew
    exact ⟨n, hinside, hmarker, by simpa using hbefore.symm, htoken⟩
  | cons first earlier =>
    obtain ⟨-, rfl⟩ := List.cons.inj hnew
    have hnone := hothers marker (by simp)
    simp [hnone] at hcontent

/-- At its marker a reading knows the indentation of the marker's logical line. -/
theorem StandsBefore.lineWidth {m : Nat}
    (h : (rounds m (start text)).StandsBefore before marker n) :
    (rounds m (start text)).layout.lineWidth = lineIndentation text before := by
  rw [lineWidth_rounds h.inside, h.tokens]

end Reading

/-- The physical lines below the one on which a token ends. -/
def linesBelow (text : List Char) (t : Token) : List PhysicalLine :=
  (split (text.drop t.stop.offset)).tail

/-- What stands behind a marker on its line, and the line end. -/
def markerLine (text : List Char) (marker : Token) : List Char :=
  join ((split (text.drop marker.stop.offset)).take 1)

/-- The lines below a marker that are captured: the longest run of blank and deeper ones. -/
def blockLines (text : List Char) (before : List Token) (marker : Token) : List PhysicalLine :=
  (linesBelow text marker).takeWhile (isCaptured (lineIndentation text before))

/-- The text behind the captured lines. -/
def behindLines (text : List Char) (before : List Token) (marker : Token) : List Char :=
  join ((linesBelow text marker).dropWhile (isCaptured (lineIndentation text before)))

/-- A text is its first line, the lines below that are captured, and the rest. -/
theorem PhysicalLine.exists_line (text : List Char) (base : Nat) :
    ∃ line : PhysicalLine, line.chars = join ((split text).take 1) ∧
      text = line.chars ++ (join ((split text).tail.takeWhile (isCaptured base)) ++
        join ((split text).tail.dropWhile (isCaptured base))) ∧
      line.Before (join ((split text).tail.takeWhile (isCaptured base)) ++
        join ((split text).tail.dropWhile (isCaptured base))) ∧
      Parted ((split text).tail.takeWhile (isCaptured base))
        (join ((split text).tail.dropWhile (isCaptured base))) ∧
      Parted ((split text).tail.dropWhile (isCaptured base)) [] := by
  have hparted := parted_split text
  have hjoin := join_split text
  cases hsplit : split text with
  | nil =>
    rw [hsplit] at hjoin
    exact ⟨⟨[], []⟩, rfl, hjoin.symm, ⟨by simp, .last rfl⟩, trivial, trivial⟩
  | cons line below =>
    rw [hsplit] at hparted hjoin
    obtain ⟨-, hbefore, hbelow⟩ := hparted
    have hbelow' : below.takeWhile (isCaptured base) ++ below.dropWhile (isCaptured base) = below :=
      List.takeWhile_append_dropWhile
    rw [← hbelow', parted_append, List.append_nil] at hbelow
    rw [List.append_nil] at hbefore
    rw [List.tail_cons, ← join_append, hbelow']
    exact ⟨line, by simp, hjoin.symm, hbefore, hbelow⟩

/-- The first line that is not captured ends the block. -/
theorem captures_dropWhile {ls : List PhysicalLine} {base : Nat}
    (h : Parted (ls.dropWhile (isCaptured base)) []) :
    join (ls.dropWhile (isCaptured base)) = [] ∨
      captures base (join (ls.dropWhile (isCaptured base))) = false := by
  cases hdrop : ls.dropWhile (isCaptured base) with
  | nil => exact .inl rfl
  | cons l more =>
    rw [hdrop] at h
    obtain ⟨-, hbefore, -⟩ := h
    rw [List.append_nil] at hbefore
    right
    rw [join_cons, captures_chars hbefore]
    have hhead := List.head?_dropWhile_not (isCaptured base) ls
    rw [hdrop] at hhead
    simpa using hhead

namespace Reading

theorem StandsBefore.beforeBlock {m : Nat}
    (h : (rounds m (start text)).StandsBefore before marker n)
    (hcontent : marker.kind.captures? = some content) :
    ∃ line : PhysicalLine, line.chars = markerLine text marker ∧
      (rounds m (start text)).BeforeBlock marker.kind content n line
        (blockLines text before marker) (behindLines text before marker) := by
  have hfollows : (rounds m (start text)).transcript.Follows text :=
    rounds_induction (P := fun r => r.transcript.Follows text) (fun r _ h => follows_round h) m
      (r := start text) (Transcript.follows_start text)
  have hbehind : (rounds m (start text)).rest.drop n = text.drop marker.stop.offset := by
    have halong := (hfollows.along.advance n).rest_eq_drop
    rw [Cursor.advance_rest] at halong
    rw [← h.token]
    exact halong
  obtain ⟨line, hline, htext, hbefore, hrun, hmore⟩ :=
    exists_line (text.drop marker.stop.offset) (lineIndentation text before)
  refine ⟨line, hline, ?_⟩
  constructor
  case inside => exact h.inside
  case marker => exact h.begins
  case content => exact hcontent
  case behind => rw [hbehind]; exact htext
  case ended => exact hbefore
  case parted => exact hrun
  case captured =>
    rw [h.lineWidth]
    exact fun l hl => List.mem_takeWhile_imp hl
  case stop =>
    rw [h.lineWidth]
    exact captures_dropWhile hmore

variable {r : Reading} {line : PhysicalLine} {run : List PhysicalLine}

theorem line_start_le {c : Cursor} {ps : List Piece} :
    ∀ t ∈ c.tokens ps, c.position.line ≤ t.start.line := by
  have hstep (c : Cursor) (n : Nat) : c.position.line ≤ (c.advance n).position.line := by
    have hbefore := (c.position_before_advance n).1
    rw [Position.le_iff_not_lt, Position.lt_iff] at hbefore
    omega
  induction ps generalizing c with
  | nil => exact nofun
  | cons p ps ih =>
    cases p with
    | skip n => exact fun t ht => (hstep c n).trans (ih t ht)
    | fault cause n => exact fun t ht => ih t ht
    | token kind n =>
      refine List.forall_mem_cons.mpr ⟨Nat.le_refl _, fun t ht => ?_⟩
      exact (hstep c n).trans (ih t ht)

/-- What a reading has read since some other one: whole phrases, on the lines from there on. -/
structure ReadSince (s r : Reading) (later : List Token) : Prop where
  tokens : r.transcript.tokens.toList = s.transcript.tokens.toList ++ later
  phrased : ∃ faults, Phrased later faults
  line : s.transcript.cursor.position.line ≤ r.transcript.cursor.position.line
  lines : ∀ t ∈ later, s.transcript.cursor.position.line ≤ t.start.line
  modes : r.layout.modes.OutsideTags

theorem ReadSince.round {s r : Reading} {later : List Token} (h : ReadSince s r later) :
    ∃ later, ReadSince s r.round later := by
  have hnext := Round.readsPhrases_next h.modes r.transcript.cursor
  obtain ⟨faults, hphrased⟩ := h.phrased
  refine ⟨later ++ r.transcript.cursor.tokens (Round.next r.layout r.transcript.cursor).pieces, ?_⟩
  constructor
  case tokens => rw [tokens_round, h.tokens, List.append_assoc]
  case phrased => exact ⟨_, hphrased.append (hnext.phrases _)⟩
  case line =>
    have hbefore := (r.transcript.cursor.position_before_advance
      (Piece.total (Round.next r.layout r.transcript.cursor).pieces)).1
    rw [Position.le_iff_not_lt, Position.lt_iff] at hbefore
    rw [cursor_round]
    have hline := h.line
    omega
  case lines =>
    intro t ht
    rcases List.mem_append.mp ht with ht | ht
    · exact h.lines t ht
    · exact h.line.trans (line_start_le t ht)
  case modes => exact hnext.modes

theorem exists_readSince {s : Reading} (h : s.layout.modes.OutsideTags) (k : Nat) :
    ∃ later, ReadSince s (rounds k s) later :=
  rounds_induction (P := fun r => ∃ later, ReadSince s r later)
    (fun _ _ ⟨_, hlater⟩ => hlater.round) k
    ⟨[], by simp, ⟨[], phrased_nil _⟩, Nat.le_refl _, nofun, h⟩

/-- The text is read to its end from behind every round. -/
theorem transcribe_eq_round {m k : Nat} (h : (rounds m (start text)).rest ≠ [])
    (hk : 2 * text.length + 1 ≤ k) :
    transcribe text = (rounds k (rounds m (start text)).round).finish := by
  have hround : rounds 1 (rounds m (start text)) = (rounds m (start text)).round := by
    rw [rounds, if_neg (by simpa using h), rounds]
  rw [← hround, ← rounds_add, ← rounds_add]
  exact transcribe_eq (by omega)

/-- The marks at the end of the text. -/
def endTokens (r : Reading) : List Token :=
  r.endMarks.map (Token.mark · r.transcript.cursor.position)

theorem isStructural_of_mem_endTokens (r : Reading) : ∀ t ∈ r.endTokens, t.isStructural = true := by
  intro t ht
  obtain ⟨k, hk, rfl⟩ := List.mem_map.mp ht
  exact isStructural_of_mem_endMarks r k hk

theorem phrased_lineEnd (r : Reading) (n : Nat) (line : PhysicalLine) (run : List PhysicalLine) :
    Phrased (r.lineEnd n line run) [] :=
  phrased_of_standsAlone (fun _ ht => congrArg standsAlone (kind_of_mem_lineEnd ht)) []

theorem phrased_endTokens (r : Reading) : Phrased r.endTokens [] := by
  refine phrased_of_standsAlone (fun t ht => ?_) []
  obtain ⟨k, hk, rfl⟩ := List.mem_map.mp ht
  exact standsAlone_of_mem_endMarks r k hk

/-- What is read behind the block stands on the lines behind it. -/
theorem BeforeBlock.line_lt_of_mem {k : Nat} {later : List Token}
    (h : r.BeforeBlock kind content n line run rest)
    (hlater : ReadSince r.round (rounds k r.round) later) :
    ∀ t ∈ later, r.transcript.cursor.position.line + run.length < t.start.line := by
  obtain ⟨-, hcursor, -⟩ := h.round_eq
  intro t ht
  by_cases hrest : rest = []
  · have hend : r.round.rest = [] := by rw [Reading.rest, hcursor, h.rest_behindBlock, hrest]
    have htokens := hlater.tokens
    rw [rounds_of_rest_isEmpty (List.isEmpty_iff.mpr hend)] at htokens
    simp [List.self_eq_append_right.mp htokens] at ht
  · have hline := hlater.lines t ht
    rw [hcursor, h.line_behindBlock hrest] at hline
    omega

/-- All tokens of the text: up to the block, the block, and what is read behind it. -/
theorem BeforeBlock.tokens_transcribe {m k : Nat} {later : List Token}
    (h : r.BeforeBlock kind content n line run rest) (hr : rounds m (start text) = r)
    (hk : 2 * text.length + 1 ≤ k)
    (hlater : (rounds k r.round).transcript.tokens.toList =
      r.round.transcript.tokens.toList ++ later) :
    ∃ contents : List Token, Carry content contents run ∧
      (transcribe text).tokens.toList = r.transcript.tokens.toList ++ r.markerToken kind n ::
        (contents ++ (r.lineEnd n line run ++ (later ++ (rounds k r.round).endTokens))) := by
  subst hr
  have hrest : (rounds m (start text)).rest ≠ [] := by
    obtain ⟨x, more, hmore, -⟩ := h.marker.exists_cons
    simp [hmore]
  obtain ⟨-, -, contents, htokens, hcontents⟩ := h.round_eq
  refine ⟨contents, hcontents, ?_⟩
  rw [transcribe_eq_round hrest hk, tokens_finish, hlater, htokens]
  simp [endTokens]

/-- The tokens behind a marker are the lines of its block and then others, which go on behind the
block. -/
theorem block_read (hcontent : marker.kind.captures? = some content)
    (h : (transcribe text).tokens.toList = before ++ marker :: after) :
    ∃ contents others : List Token, after = contents ++ others ∧
      Carry content contents (blockLines text before marker) ∧
      (∀ t ∈ others.head?, t.kind ≠ content) ∧
      ∀ t ∈ others, t.isStructural = false →
        marker.start.line + (blockLines text before marker).length < t.start.line := by
  obtain ⟨m, n, hmarker⟩ := exists_standsBefore hcontent h
  obtain ⟨line, -, hblock⟩ := hmarker.beforeBlock hcontent
  have hmodes : (rounds m (start text)).round.layout.modes.OutsideTags :=
    (rounds_induction (P := InPhrases) (fun r _ h => h.round) m (inPhrases_start text)).round.modes
  obtain ⟨later, hlater⟩ := exists_readSince hmodes (2 * text.length + 1)
  obtain ⟨contents, hcontents, htokens⟩ :=
    hblock.tokens_transcribe rfl (Nat.le_refl _) hlater.tokens
  rw [h, hmarker.tokens, hmarker.token] at htokens
  obtain ⟨-, rfl⟩ := List.cons.inj (List.append_cancel_left htokens)
  obtain ⟨faults, hphrased⟩ := hlater.phrased
  refine ⟨contents, _, rfl, hcontents, fun t ht hkind => ?_, fun t ht hinLine => ?_⟩
  · have hhead := ((phrased_lineEnd _ n line _).append (hphrased.append
      (phrased_endTokens _))).head_kind t ht
    rcases captures?_eq_some.mp hcontent with ⟨-, rfl⟩ | ⟨-, rfl⟩ <;>
      simp [hkind, isContinuation] at hhead
  · have hstart : marker.start = (rounds m (start text)).transcript.cursor.position := by
      rw [← hmarker.token]
      rfl
    rw [hstart]
    rcases List.mem_append.mp ht with ht | ht
    · simp [Token.isStructural, kind_of_mem_lineEnd ht, isStructural] at hinLine
    rcases List.mem_append.mp ht with ht | ht
    · exact hblock.line_lt_of_mem hlater t ht
    · simp [isStructural_of_mem_endTokens _ t ht] at hinLine

end Reading

end AgentScript
