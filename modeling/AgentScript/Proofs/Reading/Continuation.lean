import AgentScript.Proofs.Reading.Composites
import Mathlib.Data.List.DropRight

/-!
# Reading a text that goes on

Two readings go along a text of whole lines and along the same text with more behind it. A round
sees no more than the line it stands on, so both find the same pieces, until a captured block
reaches the end of the shorter text: there the longer reading goes on and the shorter one ends.
-/
namespace AgentScript

open CharClass Lexeme

/-- Every line of the text is ended by a line feed. -/
def WholeLines (text : List Char) : Prop := ∀ c ∈ text.getLast?, c = '\n'

/-- The last line of the text is ended where `more` comes next, and not within a line end. -/
def LinesBefore (text more : List Char) : Prop :=
  ∀ c ∈ text.getLast?, c = '\n' ∨ c = '\r' ∧ more.head? ≠ some '\n'

variable {text rest more : List Char} {c : Char} {l : Layout}

theorem WholeLines.before (h : WholeLines text) (more : List Char) : LinesBefore text more :=
  fun c hc => .inl (h c hc)

namespace LinesBefore

theorem drop (h : LinesBefore text more) (n : Nat) : LinesBefore (text.drop n) more := by
  intro c hc
  rw [List.getLast?_drop] at hc
  split_ifs at hc
  · exact nomatch hc
  · exact h c hc

theorem tail (h : LinesBefore (c :: rest) more) : LinesBefore rest more := h.drop 1

/-- A line that has begun goes on to its end. -/
theorem ne_nil (h : LinesBefore (c :: rest) more) (hc : isLineBreak c = false) : rest ≠ [] := by
  rintro rfl
  rcases h c rfl with rfl | ⟨rfl, -⟩ <;> exact nomatch hc

end LinesBefore

theorem firstLine_append (h : LinesBefore text more) (hne : text ≠ []) :
    firstLine (text ++ more) = firstLine text ∧ lineLength text < text.length := by
  induction text with
  | nil => exact absurd rfl hne
  | cons c rest ih =>
    cases hc : isLineBreak c with
    | true =>
      rw [← length_firstLine, List.cons_append, firstLine_break hc, firstLine_break hc]
      simp
    | false =>
      obtain ⟨hline, hlt⟩ := ih h.tail (h.ne_nil hc)
      rw [← length_firstLine] at hlt ⊢
      rw [List.cons_append, firstLine_cons hc, firstLine_cons hc, hline]
      simpa using hlt

theorem breakLength_append (h : LinesBefore text more) (hne : text ≠ []) :
    breakLength (text ++ more) = breakLength text := by
  obtain ⟨c, rest, rfl⟩ := List.exists_cons_of_ne_nil hne
  by_cases hn : c = '\n'
  · simp [breakLength, hn]
  by_cases hc : c = '\r'
  · subst hc
    cases rest with
    | nil =>
      obtain ⟨-, halone⟩ := (h '\r' rfl).resolve_left hn
      cases more with
      | nil => rfl
      | cons d more =>
        have hd : d ≠ '\n' := by simpa using halone
        simp [breakLength, hd]
    | cons d rest => by_cases hd : d = '\n' <;> simp [breakLength, hd]
  · simp [breakLength, hc, hn]

section

variable (h : LinesBefore text more) (hne : text ≠ [])

include h hne

theorem lineLength_lt : lineLength text < text.length := (firstLine_append h hne).2

theorem restIsBlank_append : restIsBlank (text ++ more) = restIsBlank text := by
  rw [← restIsBlank_firstLine, (firstLine_append h hne).1, restIsBlank_firstLine]

theorem captures_append (base : Nat) : captures base (text ++ more) = captures base text := by
  rw [← captures_firstLine, (firstLine_append h hne).1, captures_firstLine]

theorem lineLength_append : lineLength (text ++ more) = lineLength text :=
  congrArg List.length (firstLine_append h hne).1

/-- The break behind the first line, and the text behind that. -/
theorem lineBreak_append :
    breakLength ((text ++ more).drop (lineLength text)) =
      breakLength (text.drop (lineLength text)) ∧
      (text ++ more).drop (lineLength text + breakLength (text.drop (lineLength text))) =
        text.drop (lineLength text + breakLength (text.drop (lineLength text))) ++ more ∧
      lineLength text + breakLength (text.drop (lineLength text)) ≤ text.length := by
  have hlt := lineLength_lt h hne
  have hle := breakLength_le (text.drop (lineLength text))
  rw [List.length_drop] at hle
  refine ⟨?_, List.drop_append_of_le_length (by omega), by omega⟩
  rw [List.drop_append_of_le_length hlt.le]
  exact breakLength_append (h.drop _) (by simpa using hlt)

end

/-- The pieces of a text when more follows it: the same, or with further ones behind them when they
use up the text. -/
inductive Piece.Continued (text : List Char) (ps : List Piece) : List Piece → Prop
  | same (fits : total ps ≤ text.length) : Continued text ps ps
  | further (usedUp : total ps = text.length) (qs : List Piece) : Continued text ps (ps ++ qs)

open Piece

theorem Piece.Continued.total_le {ps ps' : List Piece} (h : Continued text ps ps') :
    total ps ≤ text.length := by
  cases h with
  | same fits => exact fits
  | further usedUp => exact usedUp.le

/-- Pieces before the text. -/
theorem Piece.Continued.behind {ps qs qs' : List Piece} (hps : total ps ≤ text.length)
    (h : Continued (text.drop (total ps)) qs qs') : Continued text (ps ++ qs) (ps ++ qs') := by
  have htotal := h.total_le
  rw [List.length_drop] at htotal
  cases h with
  | same => exact .same (by rw [total_append]; omega)
  | further usedUp rs =>
    rw [List.length_drop] at usedUp
    rw [← List.append_assoc]
    exact .further (by rw [total_append]; omega) rs

theorem Piece.Continued.cons {p : Piece} {qs qs' : List Piece} (hp : p.width ≤ text.length)
    (h : Continued (text.drop p.width) qs qs') : Continued text (p :: qs) (p :: qs') := by
  have htotal : total [p] = p.width := by simp
  rw [← htotal] at hp h
  exact h.behind hp

/-- A piece over a whole line, with the break behind it. -/
theorem Piece.Continued.line {p : Piece} (hp : p.width = lineLength text)
    (hle : lineLength text + breakLength (text.drop (lineLength text)) ≤ text.length)
    {qs qs' : List Piece}
    (h : Continued
      (text.drop (lineLength text + breakLength (text.drop (lineLength text)))) qs qs') :
    Continued text (p :: .skip (breakLength (text.drop (lineLength text))) :: qs)
      (p :: .skip (breakLength (text.drop (lineLength text))) :: qs') := by
  rw [← List.drop_drop] at h
  refine .cons (by omega) ?_
  rw [hp]
  exact h.cons (breakLength_le _)

theorem capturedLines_continued (content : TokenKind) (base : Nat) (h : LinesBefore text more) :
    Continued text (capturedLines content base text.length text)
      (capturedLines content base (text ++ more).length (text ++ more)) := by
  induction text using line_induction with
  | nil => exact .further rfl _
  | line text hne ih =>
    have hcaptures := captures_append h hne base
    cases hcaptured : captures base text with
    | false =>
      rw [hcaptured] at hcaptures
      rw [capturedLines_of_stop (.inr hcaptured), capturedLines_of_stop (.inr hcaptures)]
      exact .same (Nat.zero_le _)
    | true =>
      obtain ⟨hbreak, hdrop, hle⟩ := lineBreak_append h hne
      rw [hcaptured] at hcaptures
      rw [capturedLines_of_captures hne hcaptured,
        capturedLines_of_captures (List.append_ne_nil_of_left_ne_nil hne more) hcaptures,
        lineLength_append h hne, hbreak, hdrop]
      exact .line rfl hle (ih (h.drop _))

theorem capturedBlock_continued (content : TokenKind) (base : Nat) (h : LinesBefore text more)
    (hne : text ≠ []) :
    Continued text (capturedBlock content base text)
      (capturedBlock content base (text ++ more)) := by
  obtain ⟨hbreak, hdrop, hle⟩ := lineBreak_append h hne
  have hlines := capturedLines_continued content base
    (h.drop (lineLength text + breakLength (text.drop (lineLength text))))
  have htotal : total (if restIsBlank text then []
      else [.fault .textAfterBlockMarker (lineLength text)]) = 0 := by split_ifs <;> rfl
  unfold capturedBlock
  dsimp only
  rw [restIsBlank_append h hne, lineLength_append h hne, hbreak, hdrop]
  refine .behind (htotal ▸ Nat.zero_le _) ?_
  rw [htotal]
  exact .line rfl hle hlines

/-- A scanner within the line, and another one behind it. -/
theorem Piece.Continued.andThen {first second : Scanner} (h : StaysOnLine first text)
    (hsame : first (text ++ more) = first text)
    (hsecond : Continued (text.drop (total (first text)))
      (second (text.drop (total (first text)))) (second (text.drop (total (first text)) ++ more))) :
    Continued text (Scanner.andThen first second text)
      (Scanner.andThen first second (text ++ more)) := by
  have hle : total (first text) ≤ text.length := h.le.trans (Lexeme.spanLength_le _ _)
  unfold Scanner.andThen
  dsimp only
  rw [hsame, List.drop_append_of_le_length hle]
  exact hsecond.behind hle

/-- The cursor before a text that goes on. -/
def Cursor.withMore (more : List Char) (c : Cursor) : Cursor := { c with rest := c.rest ++ more }

theorem Cursor.advance_withMore {c : Cursor} {n : Nat} (h : n ≤ c.rest.length) (more : List Char) :
    (c.withMore more).advance n = (c.advance n).withMore more := by
  induction n generalizing c with
  | zero => rfl
  | succ n ih =>
    obtain ⟨rest, tracker, previous⟩ := c
    cases rest with
    | nil => exact absurd h (Nat.not_succ_le_zero n)
    | cons x rest => exact ih (c := ⟨rest, tracker.step x, some x⟩) (Nat.le_of_succ_le_succ h)

namespace Round

/-- The round on a text when more follows it: the same, or one that reads on where the round on the
text alone has used it up and ends the line. -/
inductive Continued (text : List Char) : Round → Round → Prop
  | same {a : Round} (fits : total a.pieces ≤ text.length) : Continued text a a
  | further {ps qs : List Piece} {l l' l'' : Layout} (usedUp : total ps = text.length) :
      Continued text ⟨ps ++ (endLine l 0).pieces, l'⟩ ⟨ps ++ qs, l''⟩

/-- A round that is told by the line alone. -/
theorem Continued.ofLine {f : List Char → Round} {text' : List Char}
    (hline : firstLine text' = firstLine text) (h : f (firstLine text) = f text)
    (h' : f (firstLine text') = f text')
    (hle : total (f text).pieces ≤ (firstLine text).length) :
    Continued text (f text) (f text') := by
  rw [← h', hline, h]
  exact .same (hle.trans (Lexeme.spanLength_le _ _))

theorem Continued.ofScan {s : Scanner} {text' : List Char}
    (hline : firstLine text' = firstLine text) (h : StaysOnLine s text) (h' : StaysOnLine s text')
    (l : Layout) : Continued text ⟨s text, l⟩ ⟨s text', l⟩ :=
  .ofLine (f := fun text => ⟨s text, l⟩) hline (by rw [h.eq]) (by rw [h'.eq]) h.le

theorem thenEndLine_continued {ps ps' : List Piece} (h : Piece.Continued text ps ps')
    (l : Layout) : Continued text (thenEndLine ps l) (thenEndLine ps' l) := by
  have hend : total (endLine l 0).pieces = 0 := by
    unfold endLine
    split_ifs <;> rfl
  cases h with
  | same fits => exact .same (by simpa [thenEndLine, hend] using fits)
  | further usedUp qs =>
    unfold thenEndLine
    dsimp only
    rw [List.append_assoc]
    exact .further usedUp

section

variable (h : LinesBefore text more) (hne : text ≠ []) (l : Layout)

include h hne

theorem beginLine_append : beginLine l (text ++ more) = beginLine l text := by
  obtain ⟨hbreak, -, -⟩ := lineBreak_append h hne
  have hwidth : blankLength (text ++ more) = blankLength text := by
    rw [← onLine_blankLength.eq, (firstLine_append h hne).1, onLine_blankLength.eq]
  unfold beginLine
  rw [restIsBlank_append h hne, lineLength_append h hne, hwidth, hbreak]

theorem beginLine_continued : Continued text (beginLine l text) (beginLine l (text ++ more)) := by
  obtain ⟨-, -, hle⟩ := lineBreak_append h hne
  rw [beginLine_append h hne]
  unfold beginLine
  refine ite_related (fun _ => .same (by simpa [width] using hle)) (.same ?_)
  rw [total_indentation]
  exact Lexeme.spanLength_le _ _

theorem endLine_continued : Continued text (endLine l (breakLength text))
    (endLine l (breakLength (text ++ more))) := by
  have hle := breakLength_le text
  rw [breakLength_append h hne]
  refine .same ?_
  unfold endLine
  split_ifs <;> simpa [width] using hle

end

section

variable (hc : isLineBreak c = false) (h : LinesBefore (c :: rest) more) (l : Layout)

include h

theorem firstLine_cons_append : firstLine (c :: (rest ++ more)) = firstLine (c :: rest) :=
  (firstLine_append h (List.cons_ne_nil _ _)).1

/-- Behind a part of the line there are its line feed and the lines below. -/
theorem drop_ne_nil {n : Nat} (hn : n ≤ (firstLine (c :: rest)).length) :
    (c :: rest).drop n ≠ [] := by
  have hlt := lineLength_lt h (List.cons_ne_nil _ _)
  rw [length_firstLine] at hn
  simpa using hn.trans_lt hlt

theorem bar_continued :
    Continued (c :: rest) (bar l c (c :: rest)) (bar l c (c :: (rest ++ more))) := by
  have hline := firstLine_cons_append h
  have hmarker : chompingMarker? (c :: (rest ++ more)) = chompingMarker? (c :: rest) := by
    rw [← chompingMarker?_firstLine, hline, chompingMarker?_firstLine]
  unfold bar
  rw [hmarker]
  cases hm : chompingMarker? (c :: rest) with
  | none => exact .same (by simp [unexpected, width])
  | some m =>
    obtain ⟨chomping, n⟩ := m
    have hn : n ≤ (firstLine (c :: rest)).length := le_of_chompingMarker? hm
    have hlength : n ≤ (c :: rest).length := hn.trans (Lexeme.spanLength_le _ _)
    have hne := drop_ne_nil h hn
    dsimp only
    rw [← List.cons_append, List.drop_append_of_le_length hlength,
      restIsBlank_append (h.drop n) hne]
    refine ite_related (fun _ => ?_) (ite_related (fun _ => ?_) ?_)
    · refine thenEndLine_continued (.cons ?_ ?_) l
      · exact hlength
      · exact capturedBlock_continued _ _ (h.drop n) hne
    · exact .same (by simp [single, width])
    · exact .same (by simp [unexpected, width])

include hc

theorem embeddedCode_continued :
    Continued (c :: rest) (embeddedCode l (c :: rest)) (embeddedCode l (c :: (rest ++ more))) := by
  have hline := firstLine_cons_append h
  have hform : markerForm? (c :: (rest ++ more)) = markerForm? (c :: rest) := by
    rw [← markerForm?_firstLine hc, hline, markerForm?_firstLine hc]
  have hmarker : StaysOnLine (marker .block) (c :: rest) := staysOnLine_marker hc .block
  unfold embeddedCode
  rw [hform]
  split
  · exact .same (by simp [width])
  · exact .ofScan hline (staysOnLine_embedded_inline hc _) (staysOnLine_embedded_inline hc _) l
  · refine thenEndLine_continued (.andThen hmarker ?_ ?_) l
    · rw [← hmarker.eq, ← hline]
      exact (staysOnLine_marker hc .block).eq.symm
    · exact capturedBlock_continued _ _ (h.drop _) (drop_ne_nil h hmarker.le)

theorem within_continued (previous : Option Char) (p : Position) :
    Continued (c :: rest) (within l previous p c (c :: rest))
      (within l previous p c (c :: (rest ++ more))) := by
  have hline := firstLine_cons_append h
  have hone : 1 ≤ (c :: rest).length := Nat.succ_le_succ (Nat.zero_le _)
  refine within_related l l previous previous p p c _ _ ?space ?lineBreak ?comment ?string ?tag
    ?code ?bar ?colon ?dash ?opening ?closing ?mark ?number ?proper ?word ?other
  case space => exact fun _ => .same hone
  case lineBreak => exact fun hbreak => absurd hbreak (by simp [hc])
  case comment =>
    have hlength : lineLength (c :: (rest ++ more)) = lineLength (c :: rest) :=
      congrArg List.length hline
    rw [hlength]
    exact fun _ => .same (Lexeme.spanLength_le _ _)
  case string =>
    exact fun _ => .ofScan hline (staysOnLine_quotedString hc) (staysOnLine_quotedString hc) l
  case tag =>
    rintro rfl
    exact .ofScan hline (staysOnLine_typeTag _ rest) (staysOnLine_typeTag _ (rest ++ more)) l
  case code => exact fun _ => embeddedCode_continued hc h l
  case bar => exact bar_continued h l
  case colon =>
    exact fun _ => .ofLine hline (colon_firstLine hc l previous rest)
      (colon_firstLine hc l previous _) (total_colon_le hc l previous rest)
  case dash =>
    exact fun _ => .ofLine hline (dash_firstLine hc l rest) (dash_firstLine hc l _)
      (total_dash_le hc l rest)
  case opening => exact fun b _ => .same hone
  case closing => exact fun b _ => .same ((total_closeBracket l b).trans_le hone)
  case mark => exact fun kind _ => .same hone
  case number => exact fun _ => .ofScan hline (staysOnLine_number _) (staysOnLine_number _) l
  case proper =>
    exact fun _ => .ofLine hline (properWord_firstLine hc l rest) (properWord_firstLine hc l _)
      (total_properWord_le hc l rest)
  case word =>
    refine fun _ => .ofLine hline (word_firstLine l _) (word_firstLine l _) ?_
    simpa [word, width] using onLine_wordLength.le (c :: rest)
  case other => exact .same hone

end

/-- A round sees no more of the text than the line it stands on and the lines that it captures. -/
theorem next_continued {cursor : Cursor} (h : LinesBefore cursor.rest more) (hne : cursor.rest ≠ [])
    (l : Layout) :
    Continued cursor.rest (next l cursor) (next l (cursor.withMore more)) := by
  obtain ⟨c, rest, hcons⟩ := List.exists_cons_of_ne_nil hne
  have hmore : (cursor.withMore more).rest = c :: (rest ++ more) := congrArg (· ++ more) hcons
  cases hl : l.beginsLine with
  | true =>
    rw [next_beginsLine hl hne, next_beginsLine hl (by simp [hmore])]
    exact beginLine_continued h hne l
  | false =>
    rw [next_within hl hcons, next_within hl hmore, hcons]
    rw [hcons] at h
    cases hc : isLineBreak c with
    | true =>
      rw [within_break hc, within_break hc]
      exact endLine_continued h (List.cons_ne_nil _ _) l
    | false => exact within_continued hc h l _ _

end Round

/-- A token that the layout of the text puts in, over no characters. -/
def Token.isSynthetic (t : Token) : Bool := t.isStructural && t.start == t.stop

theorem Token.isSynthetic_mark {kind : TokenKind} (h : kind.isStructural = true) (p : Position) :
    (Token.mark kind p).isSynthetic = true := by
  simp [isSynthetic, mark, isStructural, h]

namespace Transcript

/-- The transcript before a text that goes on. -/
def withMore (more : List Char) (t : Transcript) : Transcript :=
  { t with cursor := t.cursor.withMore more }

theorem extendAll_withMore {t : Transcript} {ps : List Piece}
    (h : total ps ≤ t.cursor.rest.length) (more : List Char) :
    (t.withMore more).extendAll ps = (t.extendAll ps).withMore more := by
  induction ps generalizing t with
  | nil => rfl
  | cons p ps ih =>
    rw [total_cons] at h
    have hwidth : p.width ≤ t.cursor.rest.length := by omega
    have hextend : (t.withMore more).extend p = (t.extend p).withMore more := by
      have hadvance := Cursor.advance_withMore hwidth more
      cases p with
      | skip n => exact congrArg (fun c => { t with cursor := c }) hadvance
      | token kind n =>
        have htake : (t.cursor.rest ++ more).take n = t.cursor.rest.take n :=
          List.take_append_of_le_length hwidth
        change (t.cursor.withMore more).advance n = (t.cursor.advance n).withMore more at hadvance
        simp only [extend, withMore, hadvance]
        simp [Cursor.withMore, Cursor.position, htake]
      | fault cause n => rfl
    rw [extendAll_cons, extendAll_cons, hextend]
    refine ih ?_
    rw [extend_cursor, Cursor.advance_rest, List.length_drop]
    omega

end Transcript

theorem rdropWhile_append {α : Type} {p : α → Bool} {l m : List α} (h : ∀ a ∈ m, p a = true) :
    (l ++ m).rdropWhile p = l.rdropWhile p := by
  unfold List.rdropWhile
  rw [List.reverse_append, List.dropWhile_append_of_pos (by simpa using h)]

/-- Where nothing is left to read, the end of a line is a mark. -/
theorem Round.isSynthetic_endLine (l : Layout) (c : Cursor) :
    ∀ t ∈ c.tokens (endLine l 0).pieces, t.isSynthetic = true := by
  unfold endLine
  split_ifs
  · simp [Cursor.tokens, Token.isSynthetic, Token.isStructural, TokenKind.isStructural]
  · simp

theorem Round.faults_endLine (l : Layout) (n : Nat) (c : Cursor) :
    c.faults (endLine l n).pieces = [] := by
  unfold endLine
  split_ifs <;> rfl

namespace Reading

variable {r r' : Reading} {more : List Char}

/-- What is left of the first reading when its text has been used up: tokens and faults that the
second reading has as well, and the end of a line. The second reading is in the text behind. -/
structure Outlived (more : List Char) (r r' : Reading) : Prop where
  usedUp : r.rest = []
  behind : r'.rest.length ≤ more.length
  tokens : r.transcript.tokens.toList.rdropWhile Token.isSynthetic <+: r'.transcript.tokens.toList
  faults : r.transcript.faults.toList <+: r'.transcript.faults.toList

/-- The second reading goes along the same text with more behind it. -/
inductive GoesOn (more : List Char) (r r' : Reading) : Prop
  | ahead (lines : LinesBefore r.rest more)
      (same : r' = ⟨r.layout, r.transcript.withMore more⟩)
  | outlived (h : Outlived more r r')

theorem goesOn_start (h : LinesBefore text more) :
    GoesOn more (start text) (start (text ++ more)) := .ahead h rfl

/-- A reading that has used up its text is outlived by all that goes on from it. -/
theorem Outlived.round (h : Outlived more r r') : Outlived more r r'.round where
  usedUp := h.usedUp
  behind := by
    rw [round_rest, List.length_drop]
    exact (Nat.sub_le _ _).trans h.behind
  tokens := by
    refine h.tokens.trans ?_
    change _ <+: (r'.transcript.extendAll _).tokens.toList
    rw [Transcript.tokens_extendAll]
    exact List.prefix_append _ _
  faults := by
    refine h.faults.trans ?_
    change _ <+: (r'.transcript.extendAll _).faults.toList
    rw [Transcript.faults_extendAll]
    exact List.prefix_append _ _

theorem GoesOn.outlives (h : GoesOn more r r') (hrest : r.rest = []) : Outlived more r r' := by
  cases h with
  | ahead _ same =>
    rw [same]
    refine ⟨hrest, ?_, List.rdropWhile_prefix _ _, List.prefix_refl _⟩
    change (r.rest ++ more).length ≤ more.length
    rw [hrest, List.nil_append]
  | outlived h => exact h

theorem GoesOn.round (h : GoesOn more r r') (hne : r.rest ≠ []) : GoesOn more r.round r'.round := by
  cases h with
  | outlived h => exact absurd h.usedUp hne
  | ahead lines same =>
    subst same
    have hnext := Round.next_continued lines hne r.layout
    generalize ha : Round.next r.layout r.transcript.cursor = a at hnext
    generalize hb : Round.next r.layout (r.transcript.cursor.withMore more) = b at hnext
    have hround' : (Reading.mk r.layout (r.transcript.withMore more)).round =
        ⟨b.layout, (r.transcript.withMore more).extendAll b.pieces⟩ := round_of_next hb
    rw [round_of_next ha, hround']
    cases hnext with
    | same fits =>
      rw [Transcript.extendAll_withMore fits]
      refine .ahead ?_ rfl
      change LinesBefore (r.transcript.extendAll a.pieces).cursor.rest more
      rw [Transcript.extendAll_cursor, Cursor.advance_rest]
      exact lines.drop _
    | @further ps qs l l' l'' usedUp =>
      dsimp only
      rw [Transcript.extendAll_append, Transcript.extendAll_append,
        Transcript.extendAll_withMore usedUp.le]
      have hend : (r.transcript.extendAll ps).cursor.rest = [] := by
        rw [Transcript.extendAll_cursor, Cursor.advance_rest, usedUp, List.drop_length]
      refine .outlived ⟨?_, ?_, ?_, ?_⟩
      · change ((r.transcript.extendAll ps).extendAll (Round.endLine l 0).pieces).cursor.rest = []
        rw [Transcript.extendAll_cursor, Cursor.advance_rest, hend, List.drop_nil]
      · change (((r.transcript.extendAll ps).withMore more).extendAll qs).cursor.rest.length ≤ _
        rw [Transcript.extendAll_cursor, Cursor.advance_rest, List.length_drop]
        refine (Nat.sub_le _ _).trans ?_
        change ((r.transcript.extendAll ps).cursor.rest ++ more).length ≤ _
        rw [hend, List.nil_append]
      · rw [Transcript.tokens_extendAll _ (Round.endLine l 0).pieces,
          Transcript.tokens_extendAll _ qs,
          rdropWhile_append (Round.isSynthetic_endLine l _)]
        exact (List.rdropWhile_prefix _ _).trans (List.prefix_append _ _)
      · rw [Transcript.faults_extendAll _ (Round.endLine l 0).pieces,
          Transcript.faults_extendAll _ qs,
          Round.faults_endLine, List.append_nil]
        exact List.prefix_append _ _

theorem GoesOn.rounds (h : GoesOn more r r') (n : Nat) :
    GoesOn more (rounds n r) (rounds n r') := by
  induction n generalizing r r' with
  | zero => exact h
  | succ n ih =>
    by_cases hrest : r.rest = []
    · rw [rounds_of_rest_isEmpty (List.isEmpty_iff.mpr hrest),
        ← rounds_of_rest_isEmpty (List.isEmpty_iff.mpr hrest) n, Reading.rounds]
      split_ifs
      · rw [rounds_of_rest_isEmpty (List.isEmpty_iff.mpr hrest)]
        exact h
      · exact ih (.outlived (h.outlives hrest).round)
    · have hrest' : r'.rest ≠ [] := by
        cases h with
        | outlived h => exact absurd h.usedUp hrest
        | ahead _ same =>
          rw [same]
          exact List.append_ne_nil_of_left_ne_nil hrest more
      rw [Reading.rounds, Reading.rounds, if_neg (by simpa using hrest),
        if_neg (by simpa using hrest')]
      exact ih (h.round hrest)

/-- What has been read of a text of whole lines is read again when more follows it. -/
theorem transcribe_goesOn (h : WholeLines text) (more : List Char) :
    (transcribe text).tokens.toList.rdropWhile Token.isSynthetic <+:
        (transcribe (text ++ more)).tokens.toList ∧
      ∃ (faults : List LexicalFault) (brackets : List (Bracket × Position)),
        (transcribe text).faults.toList = faults ++ brackets.map unclosed ∧
        faults <+: (transcribe (text ++ more)).faults.toList := by
  have hn : 2 * text.length + 1 ≤ 2 * (text ++ more).length + 1 := by
    rw [List.length_append]
    omega
  have hrest : (rounds (2 * (text ++ more).length + 1) (start text)).rest = [] :=
    rounds_rest_eq_nil hn
  have houtlived :=
    ((goesOn_start (h.before more)).rounds (2 * (text ++ more).length + 1)).outlives hrest
  rw [transcribe_eq hn, transcribe_eq (Nat.le_refl (2 * (text ++ more).length + 1)), tokens_finish,
    tokens_finish, faults_finish, faults_finish, rdropWhile_append]
  · exact ⟨houtlived.tokens.trans (List.prefix_append _ _), _, _, rfl,
      houtlived.faults.trans (List.prefix_append _ _)⟩
  · intro t ht
    obtain ⟨kind, hkind, rfl⟩ := List.mem_map.mp ht
    exact Token.isSynthetic_mark (isStructural_of_mem_endMarks _ kind hkind) _

end Reading

/-- The error reports a bracket that is open at the end of a text. -/
def LexicalError.isUnclosed (e : LexicalError) : Bool :=
  Bracket.all.any fun b => e.message == (LexicalCause.unclosedBracket b).message

theorem LexicalError.isUnclosed_toError (b : Bracket × Position) (file : Option String) :
    ((Reading.unclosed b).toError file).isUnclosed = true := by
  obtain ⟨b, p⟩ := b
  cases b <;> simp [isUnclosed, Bracket.all, Reading.unclosed, LexicalFault.toError]

/-- More text behind whole lines changes nothing of what was read of them: not the tokens up to the
layout tokens at the end, and not the errors but those about brackets that are still open. -/
theorem tokens_goOn (p q : String) (file : Option String) (h : WholeLines p.toList) :
    (TokenizedText.ofLabelledSource p file).tokens.rdropWhile Token.isSynthetic <+:
        (TokenizedText.ofLabelledSource (p ++ q) file).tokens ∧
      (TokenizedText.ofLabelledSource p file).errors.rdropWhile LexicalError.isUnclosed <+:
        (TokenizedText.ofLabelledSource (p ++ q) file).errors := by
  obtain ⟨htokens, faults, brackets, hfaults, hfirst⟩ :=
    Reading.transcribe_goesOn h q.toList
  unfold TokenizedText.ofLabelledSource
  rw [String.toList_append]
  refine ⟨htokens, ?_⟩
  dsimp only
  rw [hfaults, List.map_append, rdropWhile_append]
  · exact (List.rdropWhile_prefix _ _).trans (hfirst.map _)
  · intro e he
    obtain ⟨f, hf, rfl⟩ := List.mem_map.mp he
    obtain ⟨b, -, rfl⟩ := List.mem_map.mp hf
    exact LexicalError.isUnclosed_toError b file

/-- The captured lines of a string go on behind the end of the first text. -/
theorem tokens_goOn_multiline : WholeLines "k: |\n  a\n".toList ∧
    (TokenizedText.ofLabelledSource "k: |\n  a\n" none).tokens.rdropWhile Token.isSynthetic <+:
      (TokenizedText.ofLabelledSource ("k: |\n  a\n" ++ "  b") none).tokens ∧
    (TokenizedText.ofLabelledSource "k: |\n  a\n" none).errors.rdropWhile
        LexicalError.isUnclosed <+:
      (TokenizedText.ofLabelledSource ("k: |\n  a\n" ++ "  b") none).errors :=
  have hlines : WholeLines "k: |\n  a\n".toList := by simp [WholeLines]
  ⟨hlines, tokens_goOn _ _ none hlines⟩

end AgentScript
