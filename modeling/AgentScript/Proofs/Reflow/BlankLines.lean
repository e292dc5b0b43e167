import AgentScript.Proofs.Reading.RewrittenBlocks
import AgentScript.Proofs.Reflow.Correspondence

/-!
# Lines without tokens

A line of blanks, with or without a comment, leaves no trace where no bracket is open. What is read
of the lines above it is read again, the line itself is passed in one round, and what is read of the
lines below is the same one line further down.
-/
namespace AgentScript

open CharClass Lexeme TokenKind

/-- A line without tokens: spaces and tabs, and a comment or none. -/
structure BlankLine where
  blanks : List Char
  comment : Option (List Char)
  blank : ∀ c ∈ blanks, isInlineSpace c = true
  unbroken : ∀ text ∈ comment, ∀ c ∈ text, isLineBreak c = false

namespace BlankLine

variable (b : BlankLine)

/-- The line up to its end. -/
def text : List Char := b.blanks ++ b.comment.elim [] ('#' :: ·)

/-- The line with the line feed that ends it. -/
def line : PhysicalLine := ⟨b.text, ['\n']⟩

theorem before (following : List Char) : b.line.Before following := by
  refine ⟨fun c hc => ?_, .feed⟩
  rcases List.mem_append.mp hc with hc | hc
  · have hspace := b.blank c hc
    cases hbreak : isLineBreak c with
    | false => rfl
    | true => rcases eq_of_isLineBreak hbreak with rfl | rfl <;> exact nomatch hspace
  · cases hcomment : b.comment with
    | none =>
      rw [hcomment] at hc
      exact nomatch hc
    | some comment =>
      rw [hcomment] at hc
      rcases List.mem_cons.mp hc with rfl | hc
      · rfl
      · exact b.unbroken comment hcomment c hc

theorem restIsBlank_text : restIsBlank b.text = true := by
  unfold restIsBlank nextSignificant? text
  rw [List.dropWhile_append_of_pos b.blank]
  cases b.comment with
  | none => rfl
  | some comment => rfl

/-- The line is one round at the beginning of a line. -/
theorem beginLine_eq (l : Layout) (following : List Char) :
    Round.beginLine l (b.line.chars ++ following) =
      ⟨[.skip b.text.length, .skip 1], l⟩ := by
  have hbefore := b.before following
  have hblank : restIsBlank (b.line.chars ++ following) = true := by
    rw [← restIsBlank_firstLine, hbefore.firstLine_eq]
    exact b.restIsBlank_text
  unfold Round.beginLine
  rw [if_pos hblank, hbefore.lineLength_eq, hbefore.breakLength_eq]
  rfl

end BlankLine

namespace Round

variable {l : Layout} {cursor : Cursor} {more : List Char} {t : Token}

/-- A round that captures nothing is the same when more lines follow. -/
theorem next_withMore (h : LinesBefore cursor.rest more) (hne : cursor.rest ≠ [])
    (hno : ∀ k ∈ Piece.kinds (next l cursor).pieces, k.captures? = none) :
    next l (cursor.withMore more) = next l cursor := by
  obtain ⟨c, rest, hcons⟩ := List.exists_cons_of_ne_nil hne
  have hmore : (cursor.withMore more).rest = c :: (rest ++ more) := congrArg (· ++ more) hcons
  cases hl : l.beginsLine with
  | true =>
    rw [next_beginsLine hl hne, next_beginsLine hl (by simp [hmore])]
    exact beginLine_append h hne l
  | false =>
    have hmark := not_beginsWithMarker hl hno
    rw [next_within hl hcons, next_within hl hmore]
    rw [hcons] at h hne hmark
    cases hc : isLineBreak c with
    | true =>
      rw [within_break hc, within_break hc, ← List.cons_append, breakLength_append h hne]
    | false =>
      have hline : firstLine (c :: (rest ++ more)) = firstLine (c :: rest) :=
        firstLine_cons_append h
      have hno' (k : TokenKind) (n : Nat) : ¬ BeginsWithMarker (c :: (rest ++ more)) k n :=
        fun hmarker => hmark k n (hmarker.congr hline.symm)
      have hleft := (oneOnLine_within hc hno' l cursor.previous cursor.position).eq
      rw [hline, (oneOnLine_within hc hmark l _ _).eq] at hleft
      exact hleft.symm

/-- How much of whole lines a round takes that captures nothing: a part, or all of them where it
passes a blank line or the end of a line. -/
inductive Takes (l : Layout) (text : List Char) : Round → Prop
  | part {r : Round} (lt : Piece.total r.pieces < text.length) : Takes l text r
  | blank (begins : l.beginsLine = true) {n m : Nat} (le : n + m ≤ text.length) :
      Takes l text ⟨[.skip n, .skip m], l⟩
  | lineEnd (inside : l.beginsLine = false) {n : Nat} (le : n ≤ text.length) :
      Takes l text (endLine l n)

theorem takes_next (h : LinesBefore cursor.rest more) (hne : cursor.rest ≠ [])
    (hno : ∀ k ∈ Piece.kinds (next l cursor).pieces, k.captures? = none) :
    Takes l cursor.rest (next l cursor) := by
  have hlt := lineLength_lt h hne
  cases hl : l.beginsLine with
  | true =>
    obtain ⟨-, -, hle⟩ := lineBreak_append h hne
    rw [next_beginsLine hl hne]
    unfold beginLine
    split_ifs
    · exact .blank hl hle
    · refine .part ?_
      rw [total_indentation]
      exact (onLine_blankLength.le _).trans_lt hlt
  | false =>
    have hmark := not_beginsWithMarker hl hno
    obtain ⟨c, rest, hcons⟩ := List.exists_cons_of_ne_nil hne
    rw [next_within hl hcons]
    rw [hcons] at hmark hlt ⊢
    cases hc : isLineBreak c with
    | true =>
      rw [within_break hc]
      exact .lineEnd hl (breakLength_le _)
    | false => exact .part ((oneOnLine_within hc hmark l _ _).le.trans_lt hlt)

end Round

theorem Cursor.offset_le_of_mem_tokens {c : Cursor} {ps : List Piece} {t : Token}
    (h : t ∈ c.tokens ps) : t.start.offset ≤ c.position.offset + Piece.total ps := by
  induction ps generalizing c with
  | nil => exact nomatch h
  | cons p ps ih =>
    have hadvance (n : Nat) : (c.advance n).position.offset ≤ c.position.offset + n := by
      rw [position_advance]
      omega
    cases p with
    | skip n =>
      have hn := hadvance n
      have ht := ih h
      simp only [Piece.total_cons, Piece.width]
      omega
    | fault cause n =>
      have ht := ih h
      simp only [Piece.total_cons, Piece.width]
      omega
    | token kind n =>
      have hn := hadvance n
      simp only [Piece.total_cons, Piece.width]
      rcases List.mem_cons.mp h with rfl | h
      · dsimp only
        omega
      · have ht := ih h
        omega

theorem WholeLines.drop {text : List Char} (h : WholeLines text) (n : Nat) :
    WholeLines (text.drop n) := by
  intro c hc
  rw [List.getLast?_drop] at hc
  split_ifs at hc
  · exact nomatch hc
  · exact h c hc

namespace Reading

variable {text more : List Char} {r : Reading}

/-- A reading of whole lines: no token begins behind them, and where they are used up outside
brackets a line is about to begin. -/
structure OnLines (text : List Char) (r : Reading) : Prop where
  along : r.transcript.cursor.Along text
  lines : WholeLines r.rest
  started : ∀ t ∈ r.transcript.tokens.toList, t.start.offset < text.length
  ended : r.rest = [] → r.layout.brackets = [] → r.layout.beginsLine = true

theorem onLines_start (h : WholeLines text) : OnLines text (start text) :=
  ⟨Cursor.along_atStart text, h, by simp [start, Transcript.start], fun _ _ => rfl⟩

/-- No token of such a round begins behind the text. -/
theorem start_lt_of_takes {l : Layout} {cursor : Cursor} {next : Round} {t : Token}
    (h : Round.Takes l cursor.rest next) (hne : cursor.rest ≠ [])
    (ht : t ∈ cursor.tokens next.pieces) :
    t.start.offset < cursor.position.offset + cursor.rest.length := by
  have hpos : 0 < cursor.rest.length := List.length_pos_iff.mpr hne
  cases h with
  | part lt =>
    have hle := Cursor.offset_le_of_mem_tokens ht
    omega
  | blank => exact nomatch ht
  | lineEnd =>
    unfold Round.endLine at ht
    split_ifs at ht
    · obtain rfl := List.mem_singleton.mp ht
      dsimp only
      omega
    · exact nomatch ht

/-- Behind such a round that uses the text up outside brackets a line is about to begin. -/
theorem beginsLine_of_takes {l : Layout} {text : List Char} {next : Round}
    (h : Round.Takes l text next) (hend : text.length ≤ Piece.total next.pieces)
    (hclosed : next.layout.brackets = []) : next.layout.beginsLine = true := by
  cases h with
  | part lt => exact absurd hend (Nat.not_le.mpr lt)
  | blank begins => exact begins
  | lineEnd =>
    unfold Round.endLine at hclosed ⊢
    split_ifs at hclosed ⊢ with hopen
    · simpa [Layout.beginsLine, Layout.leaveLine] using hclosed
    · exact absurd (List.isEmpty_iff.mpr hclosed) hopen

theorem OnLines.round (h : r.OnLines text) (hrest : r.rest ≠ [])
    (hno : ∀ k ∈ Piece.kinds (Round.next r.layout r.transcript.cursor).pieces,
      k.captures? = none) : r.round.OnLines text := by
  have htakes := Round.takes_next (h.lines.before []) hrest hno
  constructor
  case along =>
    rw [cursor_round]
    exact h.along.advance _
  case lines =>
    rw [round_rest]
    exact h.lines.drop _
  case started =>
    rw [tokens_round]
    refine List.forall_mem_append.mpr ⟨h.started, fun t ht => ?_⟩
    rw [← h.along.offset_add_length]
    exact start_lt_of_takes htakes hrest ht
  case ended =>
    intro hend hclosed
    rw [round_rest] at hend
    exact beginsLine_of_takes htakes (List.drop_eq_nil_iff.mp hend) hclosed

theorem round_withMore (h : LinesBefore r.rest more) (hrest : r.rest ≠ [])
    (hno : ∀ k ∈ Piece.kinds (Round.next r.layout r.transcript.cursor).pieces,
      k.captures? = none) : (r.withMore more).round = r.round.withMore more := by
  have hnext := Round.next_withMore h hrest hno
  have hle : Piece.total (Round.next r.layout r.transcript.cursor).pieces ≤ r.rest.length := by
    have htakes := Round.takes_next h hrest hno
    generalize Round.next r.layout r.transcript.cursor = next at htakes
    cases htakes with
    | part lt => exact lt.le
    | @blank _ n m le =>
      change n + (m + 0) ≤ r.rest.length
      exact le
    | @lineEnd _ n le =>
      unfold Round.endLine
      change n ≤ r.rest.length at le
      split_ifs <;> exact le
  rw [round_of_next (r := r.withMore more) hnext]
  exact congrArg (Reading.mk _) (Transcript.extendAll_withMore hle more)

/-- The reading that has used up whole lines goes on from there to any text that follows them. -/
theorem exists_onLines (h : WholeLines text)
    (hno : ∀ t ∈ (transcribe text).tokens.toList, t.kind.captures? = none) :
    ∃ n, (rounds n (start text)).rest = [] ∧ (rounds n (start text)).OnLines text ∧
      ∀ more, ((rounds n (start text)).withMore more).complete = transcribe (text ++ more) := by
  refine ⟨_, rounds_rest_eq_nil (Nat.le_refl _), ?_⟩
  have hread := rounds_induction
    (P := fun r => r.complete = transcribe text ∧ r.OnLines text ∧
      ∀ more, (r.withMore more).complete = transcribe (text ++ more))
    (fun r hrest hr => ?step) (start text).roundsLeft
    ⟨rfl, onLines_start h, fun more => rfl⟩
  case step =>
    obtain ⟨hcomplete, hlines, hmore⟩ := hr
    have hnext := captures?_next (by rwa [hcomplete]) hrest
    refine ⟨(complete_round hrest).trans hcomplete, hlines.round hrest hnext, fun more => ?_⟩
    have hmore' : (r.withMore more).rest ≠ [] := List.append_ne_nil_of_left_ne_nil hrest more
    rw [← round_withMore (hlines.lines.before more) hrest hnext, complete_round hmore', hmore]
  exact hread.2

/-- Where the text is used up, the cursor has come over all of it. -/
theorem cursor_of_rest_eq_nil {n : Nat} (h : (rounds n (start text)).rest = []) :
    (rounds n (start text)).transcript.cursor = (Cursor.atStart text).advance text.length := by
  obtain ⟨m, hm⟩ : ∃ m, (rounds n (start text)).transcript.cursor =
      (Cursor.atStart text).advance m := by
    refine rounds_induction (P := fun r => ∃ m, r.transcript.cursor =
      (Cursor.atStart text).advance m) (fun r _ hr => ?_) n ⟨0, rfl⟩
    obtain ⟨m, hm⟩ := hr
    exact ⟨m + _, by rw [cursor_round, Cursor.advance_add, ← hm]⟩
  have hend : ((Cursor.atStart text).advance text.length).rest = [] := by
    rw [Cursor.advance_rest]
    exact List.drop_length
  have hle : text.length ≤ m := by
    rw [rest, hm, Cursor.advance_rest] at h
    exact List.drop_eq_nil_iff.mp h
  obtain ⟨k, rfl⟩ := Nat.exists_eq_add_of_le hle
  rw [hm, Cursor.advance_add, Cursor.advance_of_rest_nil hend]

end Reading

/-- The position on the next line, so many characters on. -/
def Position.below (n : Nat) (p : Position) : Position := ⟨p.line + 1, p.column, p.offset + n⟩

/-- The token on the next line, so many characters on. -/
def Token.below (n : Nat) (t : Token) : Token :=
  { t with start := t.start.below n, stop := t.stop.below n }

/-- The positions from the offset `m` on correspond to those on the next line. -/
def Position.MovesDown (m n : Nat) (p p' : Position) : Prop := m ≤ p.offset ∧ p' = p.below n

theorem Position.lasting_movesDown (m n : Nat) : Lasting (MovesDown m n) := by
  rintro t t' ⟨⟨hle, hposition⟩, hreturn⟩ c
  refine ⟨by rw [Tracker.step_offset]; omega, ?_⟩
  unfold Tracker.step
  rw [hreturn, hposition]
  dsimp only [Position.below]
  split_ifs <;> simp only [Position.mk.injEq, true_and] <;> omega

theorem Token.eq_below_of_corresponds {m n : Nat} {ts ts' : List Token}
    (h : List.Forall₂ (Corresponds (Position.MovesDown m n)) ts ts') :
    ts' = ts.map (below n) ∧ ∀ t ∈ ts, m ≤ t.start.offset := by
  induction h with
  | nil => exact ⟨rfl, nofun⟩
  | @cons t t' ts ts' ht _ ih =>
    obtain ⟨hkind, htext, ⟨hle, hstart⟩, -, hstop⟩ := ht
    obtain ⟨kind, text, start, stop⟩ := t'
    obtain ⟨rfl, hles⟩ := ih
    obtain rfl : kind = t.kind := hkind
    obtain rfl : text = t.text := htext
    obtain rfl : start = t.start.below n := hstart
    obtain rfl : stop = t.stop.below n := hstop
    exact ⟨rfl, List.forall_mem_cons.mpr ⟨hle, hles⟩⟩

namespace BlankLine

variable (b : BlankLine) {text after : List Char} {r : Reading}

/-- Behind whole lines the line moves on to the first column of the next one. -/
theorem corresponds_read (h : WholeLines text) (hreturn : '\r' ∉ text) :
    (Tracker.initial.read text).Corresponds (Position.MovesDown text.length b.line.chars.length)
      ((Tracker.initial.read text).read b.line.chars) := by
  have hfirst : (Tracker.initial.read text).position.column = 1 ∧
      (Tracker.initial.read text).afterReturn = false := by
    rcases List.eq_nil_or_concat text with rfl | ⟨lines, c, rfl⟩
    · exact ⟨rfl, rfl⟩
    · rw [List.concat_eq_append] at h hreturn ⊢
      obtain rfl : c = '\n' := h c (by simp)
      have hbefore : (Tracker.initial.read lines).afterReturn = false := by
        rcases List.eq_nil_or_concat lines with rfl | ⟨lines, d, rfl⟩
        · rfl
        · rw [List.concat_eq_append, Tracker.read_append]
          exact Cursor.afterReturn_step (by rintro rfl; simp at hreturn) _
      rw [Tracker.read_append]
      simp [Tracker.step, hbefore]
  have hoffset := Tracker.initial.read_offset text
  generalize Tracker.initial.read text = t at hfirst hoffset
  have hline := t.position_read_line (b.before []).unbroken
  have hafter : (t.read b.text).afterReturn = false := by
    by_cases hnil : b.text = []
    · rw [hnil]
      exact hfirst.2
    · exact Tracker.afterReturn_read_line (b.before []).unbroken hnil t
  change (t.read b.text).position = _ at hline
  have hread : t.read b.line.chars = (t.read b.text).step '\n' := t.read_append _ _
  rw [hread]
  refine ⟨⟨?_, ?_⟩, ?_⟩
  · rw [hoffset]
    exact Nat.le_add_left _ _
  · simp [Tracker.step, hafter, hline, Position.below, hfirst.1, PhysicalLine.chars, line,
      Nat.add_assoc]
  · simp [Tracker.step, hafter, hfirst.2]

/-- Where a line is about to begin, the line is passed in one round that reads nothing. -/
theorem round_withMore (hbegins : r.layout.beginsLine = true) (hrest : r.rest = []) :
    (r.withMore (b.line.chars ++ after)).round = ⟨r.layout,
      { r.transcript with cursor :=
        (r.transcript.cursor.withMore (b.line.chars ++ after)).advance b.line.chars.length }⟩ := by
  have hmore : (r.transcript.cursor.withMore (b.line.chars ++ after)).rest =
      b.line.chars ++ after := congrArg (· ++ _) hrest
  have hne : b.line.chars ++ after ≠ [] :=
    List.append_ne_nil_of_left_ne_nil (by simp [line, PhysicalLine.chars]) after
  have hnext : Round.next r.layout (r.transcript.cursor.withMore (b.line.chars ++ after)) =
      ⟨[.skip b.text.length, .skip 1], r.layout⟩ := by
    rw [Round.next_beginsLine hbegins (by rwa [hmore]), hmore, b.beginLine_eq]
  have hlength : b.line.chars.length = b.text.length + 1 := List.length_append
  rw [Reading.round_of_next (r := r.withMore (b.line.chars ++ after)) hnext, hlength,
    Cursor.advance_add]
  rfl

/-- Before and behind the line the same text is read, one line further down behind it. -/
theorem corresponds_round {n : Nat} (h : WholeLines text) (hreturn : '\r' ∉ text)
    (hrest : (Reading.rounds n (.start text)).rest = [])
    (hbegins : (Reading.rounds n (.start text)).layout.beginsLine = true) :
    ((Reading.rounds n (.start text)).withMore after).Corresponds
      (Position.MovesDown text.length b.line.chars.length)
      ((Reading.rounds n (.start text)).withMore (b.line.chars ++ after)).round := by
  have hcursor := Reading.cursor_of_rest_eq_nil hrest
  rw [b.round_withMore hbegins hrest]
  generalize Reading.rounds n (.start text) = r at hrest hcursor hbegins
  have htracker : r.transcript.cursor.tracker = Tracker.initial.read text := by
    rw [hcursor, Cursor.advance_tracker]
    exact congrArg _ List.take_length
  have hmore : (r.transcript.cursor.withMore (b.line.chars ++ after)).rest =
      b.line.chars ++ after := congrArg (· ++ _) hrest
  refine ⟨rfl, ⟨?rest, ?tracker, ?passed⟩⟩
  case rest =>
    rw [Cursor.advance_rest, hmore, List.drop_left]
    exact (congrArg (· ++ after) hrest).symm
  case tracker =>
    rw [Cursor.advance_tracker, hmore, List.take_left]
    change r.transcript.cursor.tracker.Corresponds _ (r.transcript.cursor.tracker.read _)
    rw [htracker]
    exact b.corresponds_read h hreturn
  case passed =>
    have hfeed : Round.admitsAtom '\n' = true := by decide
    refine Round.passedAlike_of_admitsAtom ?_ ?_
    · change r.transcript.cursor.previous.all Round.admitsAtom = true
      have hwhole : (Cursor.atStart text).rest = text ++ [] := (List.append_nil text).symm
      rw [hcursor, Cursor.previous_advance hwhole]
      cases hlast : text.getLast? with
      | none => rfl
      | some c =>
        obtain rfl := h c hlast
        exact hfeed
    · rw [Cursor.previous_advance hmore]
      have hlast : b.line.chars.getLast? = some '\n' := List.getLast?_concat
      rw [hlast]
      exact hfeed

end BlankLine

theorem Token.mem_rdropWhile {p : Token → Bool} {ts : List Token} {t : Token} (h : t ∈ ts)
    (hp : p t = false) : t ∈ ts.rdropWhile p := by
  rw [← List.mem_reverse, ← List.takeWhile_append_dropWhile (p := p) (l := ts.reverse)] at h
  rcases List.mem_append.mp h with h | h
  · exact absurd (List.mem_takeWhile_imp h) (by simp [hp])
  · exact List.mem_reverse.mpr h

namespace Reading

variable {above below : List Char}

/-- What is read of lines alone is read of them when more follows, markers of blocks included. -/
theorem captures?_append (h : WholeLines above)
    (hno : ∀ t ∈ (transcribe (above ++ below)).tokens.toList, t.kind.captures? = none) :
    ∀ t ∈ (transcribe above).tokens.toList, t.kind.captures? = none := by
  intro t ht
  cases hsynthetic : t.isSynthetic with
  | false =>
    exact hno t ((transcribe_goesOn h below).1.subset (Token.mem_rdropWhile ht hsynthetic))
  | true =>
    obtain ⟨kind, text, start, stop⟩ := t
    have hstructural := (Bool.and_eq_true_iff.mp hsynthetic).1
    cases kind <;> first | rfl | exact nomatch hstructural

/-- Tokens that are still to be read begin at the cursor or behind it. -/
theorem exists_tokens_complete (r : Reading) :
    ∃ later, r.complete.tokens.toList = r.transcript.tokens.toList ++ later ∧
      ∀ t ∈ later, r.transcript.cursor.position.offset ≤ t.start.offset := by
  have hlasting : Lasting fun p _ => r.transcript.cursor.position.offset ≤ p.offset := by
    intro t _ h c
    rw [Tracker.step_offset]
    exact Nat.le_succ_of_le h.position
  have hsame : r.Corresponds (fun p _ => r.transcript.cursor.position.offset ≤ p.offset) r :=
    ⟨rfl, rfl, ⟨Nat.le_refl _, rfl⟩, fun _ => rfl⟩
  obtain ⟨later, later', -, hlater, hlater', hstarts, -⟩ := hsame.complete hlasting rfl
  obtain rfl := List.append_cancel_left (hlater.symm.trans hlater')
  exact ⟨later, hlater, fun t ht => (List.forall₂_same.mp hstarts t ht).start⟩

theorem transcribe_insertLine (b : BlankLine) (h : WholeLines above) (hreturn : '\r' ∉ above)
    (hno : ∀ t ∈ (transcribe (above ++ below)).tokens.toList, t.kind.captures? = none)
    (hclosed : openBrackets (((transcribe (above ++ below)).tokens.toList.filter
      fun t => t.start.offset < above.length).map (·.kind)) = []) :
    (∃ earlier later,
      (transcribe (above ++ below)).tokens.toList = earlier ++ later ∧
      (transcribe (above ++ (b.line.chars ++ below))).tokens.toList =
        earlier ++ later.map (·.below b.line.chars.length) ∧
      (∀ t ∈ earlier, t.start.offset < above.length) ∧
      (∀ t ∈ later, above.length ≤ t.start.offset) ∧
      ∀ last ∈ earlier.getLast?, last.kind = .newline) ∧
    (transcribe (above ++ (b.line.chars ++ below))).causes =
      (transcribe (above ++ below)).causes := by
  obtain ⟨n, hrest, hlines, hmore⟩ := exists_onLines h (captures?_append h hno)
  have hcorresponds := @BlankLine.corresponds_round b above below n h hreturn hrest
  have hlaid : (rounds n (start above)).Laid :=
    rounds_induction (fun r hr hl => laid_round hr hl) n (laid_start above)
  have hcounts : (rounds n (start above)).CountsBrackets :=
    rounds_induction (fun r hr hc => hc.round hr) n (countsBrackets_start above)
  generalize rounds n (start above) = r at hrest hlines hmore hcorresponds hlaid hcounts
  have hoffset : r.transcript.cursor.position.offset = above.length := by
    have hlength := hlines.along.offset_add_length
    change _ + r.rest.length = _ at hlength
    rwa [hrest] at hlength
  obtain ⟨later, hlater, hstarts⟩ := exists_tokens_complete (r.withMore below)
  change ∀ t ∈ later, r.transcript.cursor.position.offset ≤ t.start.offset at hstarts
  change _ = r.transcript.tokens.toList ++ later at hlater
  rw [hoffset] at hstarts
  rw [hmore] at hlater
  have hfilter : (transcribe (above ++ below)).tokens.toList.filter
      (fun t => t.start.offset < above.length) = r.transcript.tokens.toList := by
    rw [hlater, List.filter_append, List.filter_eq_self.mpr, List.filter_eq_nil_iff.mpr,
      List.append_nil]
    · intro t ht
      simpa using hstarts t ht
    · intro t ht
      simpa using hlines.started t ht
  have hbegins : r.layout.beginsLine = true := by
    refine hlines.ended hrest ?_
    rw [hfilter] at hclosed
    exact List.map_eq_nil_iff.mp (hcounts.stack.trans hclosed)
  have hround := @BlankLine.round_withMore b below _ hbegins hrest
  have hkinds : (r.withMore (b.line.chars ++ below)).round.transcript.kinds =
      (r.withMore below).transcript.kinds := by
    rw [hround]
    rfl
  obtain ⟨later', moved, more, hlater', hmoved, hbelow, hcauses, hcauses'⟩ :=
    (hcorresponds hbegins).complete (Position.lasting_movesDown _ _) hkinds
  have hpassed : (r.withMore (b.line.chars ++ below)).rest ≠ [] := by
    simp [rest_withMore, BlankLine.line, PhysicalLine.chars]
  rw [complete_round hpassed, hmore, hround] at hmoved hcauses'
  rw [hmore] at hlater' hcauses
  obtain ⟨rfl, hle⟩ := Token.eq_below_of_corresponds hbelow
  refine ⟨⟨_, later', hlater', hmoved, hlines.started, hle, fun last hlast => ?_⟩,
    hcauses'.trans hcauses.symm⟩
  have hstart : r.layout.atLineStart = true := (Bool.and_eq_true_iff.mp hbegins).1
  refine (hlaid.atStart hstart).2 last.kind ?_
  rw [Transcript.kinds, List.getLast?_map]
  exact Option.mem_map_of_mem _ hlast

end Reading

/-- A line without tokens where no bracket is open changes nothing of what is read: not the tokens
of the lines above it, and of those below it only that they stand one line further down. -/
theorem tokens_insertLine (above below : String) (b : BlankLine) (file : Option String)
    (hlines : WholeLines above.toList) (hreturn : '\r' ∉ above.toList)
    (hcaptures : ∀ t ∈ (TokenizedText.ofLabelledSource (above ++ below) file).tokens,
      t.kind.captures? = none)
    (hclosed : openBrackets (((TokenizedText.ofLabelledSource (above ++ below) file).tokens.filter
      fun t => t.start.offset < above.toList.length).map (·.kind)) = []) :
    let old := TokenizedText.ofLabelledSource (above ++ below) file
    let new := TokenizedText.ofLabelledSource (above ++ (String.ofList b.line.chars ++ below)) file
    (∃ earlier later,
      old.tokens = earlier ++ later ∧
      new.tokens = earlier ++ later.map (·.below b.line.chars.length) ∧
      (∀ t ∈ earlier, t.start.offset < above.toList.length) ∧
      (∀ t ∈ later, above.toList.length ≤ t.start.offset) ∧
      ∀ last ∈ earlier.getLast?, last.kind = .newline) ∧
    new.errors.map (·.message) = old.errors.map (·.message) := by
  unfold TokenizedText.ofLabelledSource at hcaptures hclosed ⊢
  simp only [String.toList_append, String.toList_ofList] at hcaptures hclosed ⊢
  obtain ⟨htokens, hcauses⟩ :=
    Reading.transcribe_insertLine b hlines hreturn hcaptures hclosed
  refine ⟨htokens, ?_⟩
  have hmessages := congrArg (List.map LexicalCause.message) hcauses
  simpa [Transcript.causes, LexicalFault.toError, Function.comp_def] using hmessages

/-- A comment behind a blank. -/
def shortComment : BlankLine :=
  ⟨[' '], some ['x'], by simp [isInlineSpace], by simp [isLineBreak]⟩

/-- A comment between the lines of a block, less deep than they are. -/
theorem tokens_insertLine_comment :
    let above := "a:\n  b: c\n"
    let old := TokenizedText.ofLabelledSource (above ++ "  d: e\n") none
    let new := TokenizedText.ofLabelledSource
      (above ++ (String.ofList shortComment.line.chars ++ "  d: e\n")) none
    WholeLines above.toList ∧ '\r' ∉ above.toList ∧
      (∀ t ∈ old.tokens, t.kind.captures? = none) ∧
      openBrackets ((old.tokens.filter fun t => t.start.offset < above.toList.length).map
        (·.kind)) = [] ∧
      ∃ earlier later, old.tokens = earlier ++ later ∧
        new.tokens = earlier ++ later.map (·.below 4) ∧
        ∀ last ∈ earlier.getLast?, last.kind = .newline := by
  have hlines : WholeLines "a:\n  b: c\n".toList := by simp [WholeLines]
  have hreturn : '\r' ∉ "a:\n  b: c\n".toList := by decide
  have hcaptures :
      ∀ t ∈ (TokenizedText.ofLabelledSource ("a:\n  b: c\n" ++ "  d: e\n") none).tokens,
      t.kind.captures? = none := by decide +kernel
  have hclosed : openBrackets
      (((TokenizedText.ofLabelledSource ("a:\n  b: c\n" ++ "  d: e\n") none).tokens.filter
        fun t => t.start.offset < "a:\n  b: c\n".toList.length).map (·.kind)) = [] := by
    decide +kernel
  obtain ⟨⟨earlier, later, hold, hnew, -, -, hlast⟩, -⟩ :=
    tokens_insertLine "a:\n  b: c\n" "  d: e\n" shortComment none hlines hreturn hcaptures hclosed
  exact ⟨hlines, hreturn, hcaptures, hclosed, earlier, later, hold, hnew, hlast⟩

end AgentScript
