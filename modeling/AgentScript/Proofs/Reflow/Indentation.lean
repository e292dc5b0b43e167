import AgentScript.Proofs.Reading.BlockReadings
import AgentScript.Proofs.Reflow.Files
import AgentScript.Proofs.Reflow.IndentedText
import AgentScript.Proofs.Reflow.JoinedLines
import AgentScript.Proofs.Writing.Lexemes

/-!
# Other indentation

Only the order of the widths of lines matters. A text whose lines are indented otherwise, but in
the same order, is read in the same lines and blocks, so it has the same words, the same tree and
the same errors, at other positions.
-/
namespace AgentScript

open CharClass Lexeme
open Rendered (render)

variable {f : Nat → Nat}

namespace Round

variable {l l' : Layout} {cursor cursor' : Cursor} {c : Char} {rest : List Char}

/-- A round within a line that captures no block is the same in the indented text. -/
theorem next_inLine (hl : l'.unplaced = (l.indentedBy f).unplaced) (hinside : l.beginsLine = false)
    (hrest : cursor.rest = c :: rest) (hrest' : cursor'.rest = indentedBy f none (c :: rest))
    (hc : isLineBreak c = false) (hno : ∀ k n, ¬ BeginsWithMarker (c :: rest) k n)
    (hpassed : PassedAlike cursor.previous cursor'.previous) :
    (next l' cursor').pieces = (next l cursor).pieces ∧
      (next l' cursor').layout.unplaced = ((next l cursor).layout.indentedBy f).unplaced ∧
      (next l cursor).layout.atLineStart = l.atLineStart ∧
      Piece.total (next l cursor).pieces ≤ (firstLine (c :: rest)).length := by
  have hinside' : l'.beginsLine = false := by
    rw [← Layout.beginsLine_unplaced, hl, Layout.beginsLine_unplaced]
    exact hinside
  obtain ⟨behind, hbehind⟩ : ∃ behind, indentedBy f none (c :: rest) = c :: behind := ⟨_, rfl⟩
  rw [hbehind] at hrest'
  have hline : firstLine (c :: behind) = firstLine (c :: rest) := by
    rw [← hbehind, firstLine_indentedBy]
  have hno' (k : TokenKind) (n : Nat) : ¬ BeginsWithMarker (c :: behind) k n :=
    fun hmarker => hno k n (hmarker.congr hline.symm)
  -- The line alone tells the round, and the line is the same in both texts.
  have hsame : next l' cursor' = next l' { cursor' with rest := c :: rest } := by
    rw [next_within hinside' hrest', next_within hinside' rfl]
    have hleft := (oneOnLine_within hc hno' l' cursor'.previous cursor'.position).eq
    have hright := (oneOnLine_within hc hno l' cursor'.previous cursor'.position).eq
    rw [← hleft, hline, hright]
    rfl
  have halike : Alike (next (l.indentedBy f) cursor) (next l' { cursor' with rest := c :: rest }) :=
    next_alike_of_passedAlike hl hrest.symm hpassed
  have hindented : next (l.indentedBy f) cursor =
      ⟨(next l cursor).pieces, (next l cursor).layout.indentedBy f⟩ := by
    rw [next_within (l := l.indentedBy f) hinside hrest, next_within hinside hrest]
    exact within_indentedBy l hno hc _ _
  obtain ⟨hpieces, hlayout⟩ := Round.mk.inj halike
  rw [hsame]
  rw [hindented] at hpieces hlayout
  refine ⟨hpieces, hlayout, ?_, ?_⟩
  · rw [next_within hinside hrest]
    exact atLineStart_within l hno hc _ _
  · rw [next_within hinside hrest]
    exact (oneOnLine_within hc hno l _ _).le

end Round

/-- Tokens of the same kind, and of the same text unless they are indentations. -/
structure Token.Reindented (t t' : Token) : Prop where
  kind : t'.kind = t.kind
  text : t.kind ≠ .indent → t'.text = t.text

theorem Token.kinds_of_reindented {ts ts' : List Token} (h : List.Forall₂ Reindented ts ts') :
    ts'.map kind = ts.map kind := by
  induction h with
  | nil => rfl
  | cons ht _ ih => rw [List.map_cons, List.map_cons, ht.kind, ih]

theorem Piece.causes_indentation (reindent : Reindent) (levels : List Nat) (width width' : Nat) :
    causes (Round.indentation { reindent with levels := levels } width') =
      causes (Round.indentation reindent width) := by
  unfold Round.indentation
  dsimp only
  split_ifs <;> simp [causes]

namespace Cursor

variable {c c' : Cursor}

/-- The same pieces of the same text are the same tokens. -/
theorem tokens_reindented {ps : List Piece}
    (h : c'.rest.take (Piece.total ps) = c.rest.take (Piece.total ps)) :
    List.Forall₂ Token.Reindented (c.tokens ps) (c'.tokens ps) := by
  induction ps generalizing c c' with
  | nil => exact .nil
  | cons p ps ih =>
    have hfirst : c'.rest.take p.width = c.rest.take p.width := by
      have hwidth : min p.width (Piece.total (p :: ps)) = p.width := by
        rw [Piece.total_cons]
        omega
      rw [← hwidth, ← List.take_take, ← List.take_take, h]
    have hlater : (c'.advance p.width).rest.take (Piece.total ps) =
        (c.advance p.width).rest.take (Piece.total ps) := by
      have htotal : Piece.total (p :: ps) - p.width = Piece.total ps := by
        rw [Piece.total_cons, Nat.add_sub_cancel_left]
      rw [advance_rest, advance_rest, ← htotal, ← List.drop_take, ← List.drop_take, h]
    cases p with
    | skip n => exact ih hlater
    | fault cause n => exact ih hlater
    | token kind n => exact .cons ⟨rfl, fun _ => congrArg String.ofList hfirst⟩ (ih hlater)

/-- Behind some characters the last of them has been passed. -/
theorem previous_advance_of_pos {n : Nat} (hpos : 0 < n) (hle : n ≤ c.rest.length) :
    (c.advance n).previous = (c.rest.take n).getLast? := by
  have hprevious := previous_advance (List.take_append_drop n c.rest).symm
  rw [List.length_take_of_le hle] at hprevious
  rw [hprevious, Option.or_of_isSome]
  rw [List.getLast?_isSome, ← List.length_pos_iff, List.length_take_of_le hle]
  exact hpos

/-- An indentation opens a level, or closes as many. -/
theorem tokens_indentation (reindent : Reindent) (levels : List Nat) (width width' : Nat) :
    List.Forall₂ Token.Reindented (c.tokens (Round.indentation reindent width))
      (c'.tokens (Round.indentation { reindent with levels := levels } width')) := by
  have hdedents (n : Nat) : Piece.total (List.replicate n (.token .dedent 0)) = 0 := by
    induction n with
    | zero => rfl
    | succ n ih => rw [List.replicate_succ, Piece.total_cons, ih, Piece.width]
  have hcloses (c c' : Cursor) :
      List.Forall₂ Token.Reindented (c.tokens (List.replicate reindent.closes (.token .dedent 0)))
        (c'.tokens (List.replicate reindent.closes (.token .dedent 0))) :=
    tokens_reindented (by rw [hdedents, List.take_zero, List.take_zero])
  unfold Round.indentation
  dsimp only
  split_ifs
  · exact .cons ⟨rfl, fun hne => absurd rfl hne⟩ .nil
  · exact hcloses _ _
  · exact hcloses _ _

theorem admitsAtom_previous {n : Nat} (hpos : 0 < n) (hle : n ≤ c.rest.length)
    (h : ∀ x ∈ c.rest.take n, Round.admitsAtom x = true) :
    (c.advance n).previous.all Round.admitsAtom = true := by
  rw [previous_advance_of_pos hpos hle]
  cases hlast : (c.rest.take n).getLast? with
  | none => rfl
  | some x => exact h x (List.mem_of_getLast? hlast)

theorem admitsAtom_blanks (hpos : 0 < blankLength c.rest) :
    (c.advance (blankLength c.rest)).previous.all Round.admitsAtom = true := by
  refine admitsAtom_previous hpos (spanLength_le _ _) fun x hx => ?_
  rw [blankLength, take_spanLength] at hx
  have hspace : isInlineSpace x = true := List.mem_takeWhile_imp hx
  rcases Bool.or_eq_true_iff.mp hspace with h | h <;> rw [eq_of_beq h] <;> decide

/-- Behind a line its break has been passed. -/
theorem admitsAtom_behindLine (h : behindLine c.rest ≠ []) :
    ((c.advance (lineLength c.rest)).advance
      (breakLength (c.rest.drop (lineLength c.rest)))).previous.all Round.admitsAtom = true := by
  have hstop := List.head?_dropWhile_not (fun c => !isLineBreak c) c.rest
  rw [← drop_spanLength, ← lineLength] at hstop
  unfold behindLine at h
  have hrest : (c.advance (lineLength c.rest)).rest = c.rest.drop (lineLength c.rest) :=
    advance_rest _ _
  generalize c.rest.drop (lineLength c.rest) = rest at h hstop hrest
  cases rest with
  | nil => exact absurd List.drop_nil h
  | cons x rest =>
    have hpos := breakLength_pos (c := x) (by simpa using hstop) rest
    refine admitsAtom_previous hpos ?_ fun y hy => ?_
    · rw [Ne, List.drop_eq_nil_iff] at h
      rw [hrest]
      omega
    · rw [hrest] at hy
      simp [Round.admitsAtom, isWhitespace_of_mem_take_breakLength y hy]

end Cursor

namespace Reading

/-- Readings of a text and of the same text indented otherwise, at the same place. -/
structure Reindented (f : Nat → Nat) (r r' : Reading) : Prop where
  laid : r.Laid
  text : r'.rest = indentedBy f (some 0) r.rest ∨
    r.layout.atLineStart = false ∧ r'.rest = indentedBy f none r.rest
  layout : r'.layout.unplaced = (r.layout.indentedBy f).unplaced
  passed : r.rest ≠ [] →
    Round.PassedAlike r.transcript.cursor.previous r'.transcript.cursor.previous
  tokens : List.Forall₂ Token.Reindented r.transcript.tokens.toList r'.transcript.tokens.toList
  causes : r'.transcript.causes = r.transcript.causes

variable {r r' : Reading} {c : Char} {rest : List Char}

theorem Reindented.beginsLine_eq (h : Reindented f r r') :
    r'.layout.beginsLine = r.layout.beginsLine := by
  rw [← Layout.beginsLine_unplaced, h.layout, Layout.beginsLine_unplaced]
  rfl

theorem Laid.atLineStart_eq_false (h : r.Laid) (hinside : r.layout.beginsLine = false) :
    r.layout.atLineStart = false := by
  by_contra hstart
  have hopen := (h.atStart (by simpa using hstart)).1
  simp [Layout.beginsLine, hopen, hstart] at hinside

theorem Reindented.rest_ne_nil (hf : StrictMono f) (hzero : f 0 = 0) (h : Reindented f r r')
    (hrest : r.rest ≠ []) : r'.rest ≠ [] := by
  rcases h.text with htext | ⟨-, htext⟩
  · rwa [htext, Ne, indentedBy_eq_nil_iff hf hzero _ (.inr rfl)]
  · rwa [htext, Ne, indentedBy_eq_nil_iff hf hzero _ (.inl rfl)]

theorem reindented_start (hzero : f 0 = 0) (text : List Char) :
    Reindented f (start text) (start (indentedBy f (some 0) text)) where
  laid := laid_start text
  text := .inl rfl
  layout := by simp [start, Layout.initial, Layout.indentedBy, hzero]
  passed _ := fun _ => rfl
  tokens := .nil
  causes := rfl

/-- The same pieces of the same text keep two readings at the same place. -/
theorem Reindented.round_same (h : Reindented f r r') (hrest : r.rest ≠ [])
    (hpieces : (Round.next r'.layout r'.transcript.cursor).pieces =
      (Round.next r.layout r.transcript.cursor).pieces)
    (hlayout : r'.round.layout.unplaced = (r.round.layout.indentedBy f).unplaced)
    (htext : r'.round.rest = indentedBy f (some 0) r.round.rest ∨
      r.round.layout.atLineStart = false ∧ r'.round.rest = indentedBy f none r.round.rest)
    (hsame : r'.rest.take (Piece.total (Round.next r.layout r.transcript.cursor).pieces) =
      r.rest.take (Piece.total (Round.next r.layout r.transcript.cursor).pieces))
    (hpos : 0 < Piece.total (Round.next r.layout r.transcript.cursor).pieces) :
    Reindented f r.round r'.round where
  laid := laid_round hrest h.laid
  text := htext
  layout := hlayout
  passed hmore := by
    have hle : Piece.total (Round.next r.layout r.transcript.cursor).pieces ≤ r.rest.length := by
      rw [round_rest, Ne, List.drop_eq_nil_iff] at hmore
      omega
    have hle' : Piece.total (Round.next r.layout r.transcript.cursor).pieces ≤ r'.rest.length := by
      have hlength := congrArg List.length hsame
      rw [List.length_take_of_le hle, List.length_take] at hlength
      omega
    rw [cursor_round, cursor_round, hpieces]
    rw [Cursor.previous_advance_of_pos hpos hle, Cursor.previous_advance_of_pos hpos hle']
    change Round.PassedAlike (r.rest.take _).getLast? (r'.rest.take _).getLast?
    rw [hsame]
    exact fun _ => rfl
  tokens := by
    rw [tokens_round, tokens_round, hpieces]
    exact List.rel_append h.tokens (Cursor.tokens_reindented hsame)
  causes := by rw [causes_round, causes_round, hpieces, h.causes]

section

variable (hf : StrictMono f) (hzero : f 0 = 0)

include hf hzero

omit hf hzero in
/-- Within a line a round is the same. -/
theorem Reindented.round_within (h : Reindented f r r') (hinside : r.layout.beginsLine = false)
    (hrest : r.rest = c :: rest) (hrest' : r'.rest = indentedBy f none (c :: rest))
    (hc : isLineBreak c = false)
    (hno : ∀ k ∈ Piece.kinds (Round.next r.layout r.transcript.cursor).pieces,
      k.captures? = none) : Reindented f r.round r'.round := by
  have hne : r.rest ≠ [] := by simp [hrest]
  have hmarker : ∀ k n, ¬ BeginsWithMarker r.rest k n := Round.not_beginsWithMarker hinside hno
  rw [hrest] at hmarker
  obtain ⟨hpieces, hlayout, hsame, hle⟩ :=
    Round.next_inLine h.layout hinside hrest hrest' hc hmarker (h.passed hne)
  refine h.round_same hne hpieces hlayout
    (.inr ⟨hsame.trans (h.laid.atLineStart_eq_false hinside), ?_⟩) ?_
    (progress_of_within hne hinside)
  · rw [round_rest, round_rest, hpieces, hrest', hrest, drop_indentedBy hle]
  · rw [hrest', hrest, take_indentedBy hle]

/-- Behind the break of a line another line is indented. -/
theorem Reindented.round_break (h : Reindented f r r') (hinside : r.layout.beginsLine = false)
    (hrest : r.rest = c :: rest) (hrest' : r'.rest = indentedBy f none (c :: rest))
    (hc : isLineBreak c = true) : Reindented f r.round r'.round := by
  have hne : r.rest ≠ [] := by simp [hrest]
  obtain ⟨hlength, htake, hdrop⟩ := indentedBy_break hf hzero hc rest
  have hleft := Round.next_within hinside hrest
  have hright := Round.next_within (h.beginsLine_eq.trans hinside) hrest'
  rw [Round.within_break hc] at hleft
  rw [Round.within_break hc] at hright
  change _ = Round.endLine r'.layout (breakLength (indentedBy f none (c :: rest))) at hright
  rw [hlength] at hright
  have halike : (Round.endLine r'.layout (breakLength (c :: rest))).unplaced =
      (Round.endLine (r.layout.indentedBy f) (breakLength (c :: rest))).unplaced := by
    rw [← Round.endLine_unplaced, h.layout, Round.endLine_unplaced]
  rw [Round.endLine_indentedBy] at halike
  obtain ⟨hpieces, hlayout⟩ := Round.mk.inj halike
  have htotal : Piece.total (Round.next r.layout r.transcript.cursor).pieces =
      breakLength (c :: rest) := by
    rw [hleft, Round.total_endLine]
  refine h.round_same hne ?_ ?_ (.inl ?_) ?_ (progress_of_within hne hinside)
  · rw [hleft, hright]
    exact hpieces
  · change (Round.next r'.layout r'.transcript.cursor).layout.unplaced =
      ((Round.next r.layout r.transcript.cursor).layout.indentedBy f).unplaced
    rw [hleft, hright]
    exact hlayout
  · rw [round_rest, round_rest, htotal, hright, Round.total_endLine, hrest', hrest, hdrop]
  · rw [htotal, hrest', hrest, htake]

/-- A blank line is passed with its break. -/
theorem Reindented.round_blank (h : Reindented f r r') (hrest : r.rest ≠ [])
    (htext : r'.rest = indentedBy f (some 0) r.rest) (hblank : restIsBlank r.rest = true)
    (hleft : Round.next r.layout r.transcript.cursor = Round.beginLine r.layout r.rest)
    (hright : Round.next r'.layout r'.transcript.cursor = Round.beginLine r'.layout r'.rest) :
    Reindented f r.round r'.round := by
  have hblank' : restIsBlank r'.rest = true := by rwa [htext, restIsBlank_indentedBy]
  rw [Round.beginLine, if_pos hblank] at hleft
  rw [Round.beginLine, if_pos hblank'] at hright
  have hbehind {r : Reading} {l : Layout} (hnext : Round.next r.layout r.transcript.cursor =
      ⟨[.skip (lineLength r.rest), .skip (breakLength (r.rest.drop (lineLength r.rest)))], l⟩) :
      r.round.rest = behindLine r.rest := by
    rw [round_rest, hnext, behindLine, List.drop_drop]
    rfl
  have hpassed {r : Reading} {l : Layout} (hnext : Round.next r.layout r.transcript.cursor =
      ⟨[.skip (lineLength r.rest), .skip (breakLength (r.rest.drop (lineLength r.rest)))], l⟩)
      (hmore : r.round.rest ≠ []) :
      r.round.transcript.cursor.previous.all Round.admitsAtom = true := by
    have htotal : Piece.total (Round.next r.layout r.transcript.cursor).pieces =
        lineLength r.rest + breakLength (r.rest.drop (lineLength r.rest)) := by
      rw [hnext]
      rfl
    rw [cursor_round, htotal, Cursor.advance_add]
    exact Cursor.admitsAtom_behindLine (hbehind hnext ▸ hmore)
  constructor
  case laid => exact laid_round hrest h.laid
  case text =>
    rw [hbehind hleft, hbehind hright, htext, behindLine_indentedBy hf hzero]
    exact .inl rfl
  case layout =>
    change (Round.next r'.layout r'.transcript.cursor).layout.unplaced =
      ((Round.next r.layout r.transcript.cursor).layout.indentedBy f).unplaced
    rw [hleft, hright]
    exact h.layout
  case passed =>
    intro hmore
    refine Round.passedAlike_of_admitsAtom (hpassed hleft hmore) (hpassed hright ?_)
    rwa [hbehind hright, htext, behindLine_indentedBy hf hzero, Ne,
      indentedBy_eq_nil_iff hf hzero _ (.inr rfl), ← hbehind hleft]
  case tokens =>
    rw [tokens_round, tokens_round, hleft, hright]
    exact List.rel_append h.tokens .nil
  case causes =>
    rw [causes_round, causes_round, hleft, hright, h.causes]
    rfl

/-- An indentation opens and closes the same levels. -/
theorem Reindented.round_indentation (h : Reindented f r r') (hrest : r.rest ≠ [])
    (htext : r'.rest = indentedBy f (some 0) r.rest) (hblank : restIsBlank r.rest = false)
    (hleft : Round.next r.layout r.transcript.cursor = Round.beginLine r.layout r.rest)
    (hright : Round.next r'.layout r'.transcript.cursor = Round.beginLine r'.layout r'.rest) :
    Reindented f r.round r'.round := by
  have hblank' : restIsBlank r'.rest = false := by rwa [htext, restIsBlank_indentedBy]
  have hwidth : blankLength r'.rest = f (blankLength r.rest) := by
    rw [htext, blankLength_indentedBy]
  have hlevels : r'.layout.levels = r.layout.levels.map f := congrArg Layout.levels h.layout
  have hreindent := Reindent.ofWidth_map hf hzero r.layout.levels (blankLength r.rest)
  rw [Round.beginLine, if_neg (by simp [hblank])] at hleft
  rw [Round.beginLine, if_neg (by simp [hblank']), hlevels, hwidth] at hright
  dsimp only at hleft hright
  rw [hreindent] at hright
  have htotal : Piece.total (Round.next r.layout r.transcript.cursor).pieces =
      blankLength r.rest := by rw [hleft, Round.total_indentation]
  have htotal' : Piece.total (Round.next r'.layout r'.transcript.cursor).pieces =
      f (blankLength r.rest) := by rw [hright, Round.total_indentation]
  constructor
  case laid => exact laid_round hrest h.laid
  case text =>
    refine .inr ⟨?_, ?_⟩
    · change (Round.next r.layout r.transcript.cursor).layout.atLineStart = false
      rw [hleft]
      rfl
    · rw [round_rest, round_rest, htotal, htotal', ← hwidth, drop_blankLength, drop_blankLength,
        htext, (takeWhile_indentedBy r.rest).2]
  case layout =>
    change (Round.next r'.layout r'.transcript.cursor).layout.unplaced =
      ((Round.next r.layout r.transcript.cursor).layout.indentedBy f).unplaced
    rw [hleft, hright]
    have hplaced : (r'.layout.enterLine (f (blankLength r.rest))).unplaced =
        ((r.layout.indentedBy f).enterLine (f (blankLength r.rest))).unplaced :=
      congrArg (Layout.enterLine · (f (blankLength r.rest))) h.layout
    rw [hplaced, Layout.enterLine_indentedBy hf hzero]
  case passed =>
    intro _
    rw [cursor_round, cursor_round, htotal, htotal', ← hwidth]
    rcases Nat.eq_zero_or_pos (blankLength r.rest) with hnone | hpos
    · rw [hwidth, hnone, hzero]
      exact h.passed hrest
    · refine Round.passedAlike_of_admitsAtom (Cursor.admitsAtom_blanks hpos)
        (Cursor.admitsAtom_blanks ?_)
      change 0 < blankLength r'.rest
      rw [hwidth, ← hzero]
      exact hf hpos
  case tokens =>
    rw [tokens_round, tokens_round, hleft, hright]
    exact List.rel_append h.tokens (Cursor.tokens_indentation _ _ _ _)
  case causes =>
    rw [causes_round, causes_round, hleft, hright, h.causes, Piece.causes_indentation]

/-- A blank line is passed, and an indentation opens and closes the same levels. -/
theorem Reindented.round_beginLine (h : Reindented f r r') (hbegins : r.layout.beginsLine = true)
    (hrest : r.rest ≠ []) (htext : r'.rest = indentedBy f (some 0) r.rest) :
    Reindented f r.round r'.round := by
  have hleft := Round.next_beginsLine hbegins hrest
  have hright := Round.next_beginsLine (h.beginsLine_eq.trans hbegins)
    (h.rest_ne_nil hf hzero hrest)
  cases hblank : restIsBlank r.rest with
  | true => exact h.round_blank hf hzero hrest htext hblank hleft hright
  | false => exact h.round_indentation hf hzero hrest htext hblank hleft hright

omit hf hzero in
/-- Within a line blanks are passed one at a time. -/
theorem rounds_blanks {n : Nat} (hinside : r.layout.beginsLine = false) (hle : n ≤ r.rest.length)
    (hblank : ∀ c ∈ r.rest.take n, isInlineSpace c = true) :
    rounds n r = ⟨r.layout, { r.transcript with cursor := r.transcript.cursor.advance n }⟩ := by
  induction n generalizing r with
  | zero => rfl
  | succ n ih =>
    have hne : r.rest ≠ [] := List.ne_nil_of_length_pos (Nat.lt_of_lt_of_le (Nat.succ_pos n) hle)
    obtain ⟨c, rest, hrest⟩ := List.exists_cons_of_ne_nil hne
    rw [hrest, List.take_succ_cons, List.forall_mem_cons] at hblank
    have hnext : Round.next r.layout r.transcript.cursor = ⟨[.skip 1], r.layout⟩ := by
      rw [Round.next_within hinside hrest, Round.within_space hblank.1]
    have hround : r.round = ⟨r.layout, { r.transcript with
        cursor := r.transcript.cursor.advance 1 }⟩ := round_of_next hnext
    have hbehind : r.round.rest = rest := by
      rw [round_rest, hnext, hrest]
      rfl
    have hlayout : r.round.layout.beginsLine = false := by rwa [hround]
    rw [Nat.add_comm, rounds_add, rounds_one hne, ih hlayout ?_ ?_, hround]
    · dsimp only
      rw [← Cursor.advance_add]
    · rw [hrest, List.length_cons] at hle
      rw [hbehind]
      omega
    · rw [hbehind]
      exact hblank.2

/-- Within brackets the blanks at the beginning of a line are passed. -/
theorem Reindented.rounds_blanks (h : Reindented f r r') (hinside : r.layout.beginsLine = false)
    (hpos : 0 < blankLength r.rest) (htext : r'.rest = indentedBy f (some 0) r.rest) :
    Reindented f (rounds (blankLength r.rest) r) (rounds (blankLength r'.rest) r') ∧
      (rounds (blankLength r.rest) r).roundsLeft < r.roundsLeft := by
  have hpass {r : Reading} (hinside : r.layout.beginsLine = false) :
      rounds (blankLength r.rest) r = ⟨r.layout, { r.transcript with
        cursor := r.transcript.cursor.advance (blankLength r.rest) }⟩ := by
    refine Reading.rounds_blanks hinside (spanLength_le _ _) fun c hc => ?_
    rw [blankLength, take_spanLength] at hc
    exact List.mem_takeWhile_imp hc
  have hrest (r : Reading) : (r.transcript.cursor.advance (blankLength r.rest)).rest =
      r.rest.dropWhile isInlineSpace := by
    rw [Cursor.advance_rest, ← drop_blankLength]
    rfl
  have hpos' : 0 < blankLength r'.rest := by
    rw [htext, blankLength_indentedBy, ← hzero]
    exact hf hpos
  rw [hpass hinside, hpass (h.beginsLine_eq.trans hinside)]
  refine ⟨⟨⟨h.laid.nested, h.laid.atStart⟩, .inr ⟨h.laid.atLineStart_eq_false hinside, ?_⟩,
    h.layout, fun _ => ?_, h.tokens, h.causes⟩, ?_⟩
  · change (r'.transcript.cursor.advance (blankLength r'.rest)).rest =
      indentedBy f none (r.transcript.cursor.advance (blankLength r.rest)).rest
    rw [hrest, hrest, htext, (takeWhile_indentedBy r.rest).2]
  · exact Round.passedAlike_of_admitsAtom (Cursor.admitsAtom_blanks hpos)
      (Cursor.admitsAtom_blanks hpos')
  · unfold roundsLeft
    change 2 * (r.transcript.cursor.advance (blankLength r.rest)).rest.length + _ < _
    have hle : blankLength r.rest ≤ r.rest.length := spanLength_le _ _
    rw [Cursor.advance_rest, List.length_drop]
    change 2 * (r.rest.length - blankLength r.rest) + r.layout.beginsLine.toNat < _
    omega

/-- Some rounds bring both readings to the same place again. -/
theorem Reindented.exists_rounds (h : Reindented f r r')
    (hno : ∀ t ∈ r.complete.tokens.toList, t.kind.captures? = none) (hrest : r.rest ≠ []) :
    ∃ k k', Reindented f (rounds k r) (rounds k' r') ∧ (rounds k r).roundsLeft < r.roundsLeft := by
  have hrest' := h.rest_ne_nil hf hzero hrest
  have hone (hround : Reindented f r.round r'.round) :
      ∃ k k', Reindented f (rounds k r) (rounds k' r') ∧
        (rounds k r).roundsLeft < r.roundsLeft := by
    refine ⟨1, 1, ?_, ?_⟩
    · rwa [rounds_one hrest, rounds_one hrest']
    · rw [rounds_one hrest]
      exact roundsLeft_round_lt hrest
  cases hbegins : r.layout.beginsLine with
  | true =>
    refine hone (h.round_beginLine hf hzero hbegins hrest (h.text.resolve_right ?_))
    rintro ⟨hstart, -⟩
    simp [Layout.beginsLine, hstart] at hbegins
  | false =>
    have hinLine (htext : r'.rest = indentedBy f none r.rest) : Reindented f r.round r'.round := by
      obtain ⟨c, rest, hcons⟩ := List.exists_cons_of_ne_nil hrest
      rw [hcons] at htext
      cases hc : isLineBreak c with
      | true => exact h.round_break hf hzero hbegins hcons htext hc
      | false => exact h.round_within hbegins hcons htext hc (captures?_next hno hrest)
    rcases h.text with htext | ⟨-, htext⟩
    · rcases Nat.eq_zero_or_pos (blankLength r.rest) with hnone | hpos
      · exact hone (hinLine (htext.trans (indentedBy_of_blankLength_eq_zero hzero hnone)))
      · exact ⟨blankLength r.rest, blankLength r'.rest, h.rounds_blanks hf hzero hbegins hpos htext⟩
    · exact hone (hinLine htext)

/-- At the end of the text the same marks are set. -/
theorem Reindented.complete_end (h : Reindented f r r') (hrest : r.rest = []) :
    List.Forall₂ Token.Reindented r.complete.tokens.toList r'.complete.tokens.toList ∧
      r'.complete.causes = r.complete.causes := by
  have hrest' : r'.rest = [] := by
    rcases h.text with htext | ⟨-, htext⟩
    · rwa [htext, indentedBy_eq_nil_iff hf hzero _ (.inr rfl)]
    · rwa [htext, indentedBy_eq_nil_iff hf hzero _ (.inl rfl)]
  have hlevels : r'.layout.levels.length = r.layout.levels.length := by
    have hlevels : r'.layout.levels = r.layout.levels.map f := congrArg Layout.levels h.layout
    rw [hlevels, List.length_map]
  have hbrackets : r'.layout.openBrackets = r.layout.openBrackets := by
    rw [← Layout.openBrackets_unplaced, h.layout, Layout.openBrackets_unplaced]
    rfl
  have hmarks := endMarks_congr hlevels (Token.kinds_of_reindented h.tokens)
  rw [complete_of_rest_eq_nil hrest, complete_of_rest_eq_nil hrest', tokens_finish, tokens_finish,
    causes_finish, causes_finish, hmarks, hbrackets, h.causes]
  refine ⟨List.rel_append h.tokens ?_, rfl⟩
  rw [List.forall₂_map_left_iff, List.forall₂_map_right_iff]
  exact List.forall₂_same.mpr fun k _ => ⟨rfl, fun _ => rfl⟩

theorem Reindented.complete (h : Reindented f r r')
    (hno : ∀ t ∈ r.complete.tokens.toList, t.kind.captures? = none) :
    List.Forall₂ Token.Reindented r.complete.tokens.toList r'.complete.tokens.toList ∧
      r'.complete.causes = r.complete.causes := by
  refine complete_induction
    (R := fun r r' => Reindented f r r' ∧ ∀ t ∈ r.complete.tokens.toList, t.kind.captures? = none)
    (Q := fun t t' => List.Forall₂ Token.Reindented t.tokens.toList t'.tokens.toList ∧
      t'.causes = t.causes) ?step (fun r r' h hrest => h.1.complete_end hf hzero hrest) ⟨h, hno⟩
  case step =>
    rintro r r' ⟨h, hno⟩ hrest
    obtain ⟨k, k', hnext, hlt⟩ := h.exists_rounds hf hzero hno hrest
    exact ⟨k, k', ⟨hnext, by rwa [complete_rounds]⟩, hlt⟩

/-- A text that is indented otherwise has the same lines and blocks. -/
theorem reindented_transcribe (text : List Char)
    (hno : ∀ t ∈ (transcribe text).tokens.toList, t.kind.captures? = none) :
    List.Forall₂ Token.Reindented (transcribe text).tokens.toList
        (transcribe (indentedBy f (some 0) text)).tokens.toList ∧
      (transcribe (indentedBy f (some 0) text)).causes = (transcribe text).causes := by
  simp only [← complete_start] at hno ⊢
  exact (reindented_start hzero text).complete hf hzero hno

end

end Reading

/-- The source with `f n` spaces in the place of the `n` spaces and tabs that every physical line
begins with. -/
def withIndentation (f : Nat → Nat) (source : String) : String :=
  String.ofList (indentedBy f (some 0) source.toList)

theorem Token.render_withoutPositions (t : Token) :
    render .withoutPositions t = ⟨t.kind, t.text, .origin, .origin⟩ := by
  change Token.mk t.kind (if t.kind = .newline then t.text else t.text) _ _ = _
  rw [ite_self]
  rfl

/-- Without positions tokens that agree but for indentations are the same, or begin a block. -/
theorem Token.Reindented.indented {t t' : Token} (h : t.Reindented t') (hblank : t.BlankIfLayout)
    (hblank' : t'.BlankIfLayout) :
    Reflowed.Indented (render .withoutPositions t) (render .withoutPositions t') := by
  rw [render_withoutPositions, render_withoutPositions]
  by_cases hk : t.kind = .indent
  · have hk' : t'.kind = .indent := h.kind.trans hk
    refine .inr ⟨⟨hk, hblank ?_⟩, ⟨hk', hblank' ?_⟩, rfl⟩
    · rw [Token.isStructural, hk]
      rfl
    · rw [Token.isStructural, hk']
      rfl
  · exact .inl (by rw [h.kind, h.text hk])

/-- Without positions errors of the same message are the same. -/
theorem ParseError.render_eq_of_alike {Moved : Position → Position → Prop} {e e' : ParseError}
    (h : (render .withoutPositions e).Alike Moved (render .withoutPositions e')) :
    render .withoutPositions e' = render .withoutPositions e := by
  obtain ⟨message, location, file⟩ := e
  obtain ⟨message', location', file'⟩ := e'
  obtain ⟨hmessage, hfile, hstart⟩ := h
  obtain rfl : message = message' := hmessage
  obtain rfl : file = file' := hfile
  cases location with
  | none =>
    cases location' with
    | none => rfl
    | some l' => exact nomatch hstart
  | some l =>
    cases location' with
    | none => exact nomatch hstart
    | some l' => rfl

theorem ParseError.render_eq_of_forall₂_alike {Moved : Position → Position → Prop}
    {es es' : List ParseError}
    (h : List.Forall₂ (Alike Moved) (render .withoutPositions es) (render .withoutPositions es')) :
    render .withoutPositions es' = render .withoutPositions es := by
  change List.Forall₂ _ (List.map _ _) (List.map _ _) at h
  rw [List.forall₂_map_left_iff, List.forall₂_map_right_iff] at h
  rw [← List.forall₂_eq_eq_eq]
  change List.Forall₂ _ (List.map _ _) (List.map _ _)
  rw [List.forall₂_map_left_iff, List.forall₂_map_right_iff]
  exact h.flip.imp fun _ _ he => render_eq_of_alike he

/-- Without positions a body that is indented otherwise is read as the same body, reflowed. -/
theorem Token.reflowed_of_reindented {body body' : List Token}
    (hbody : List.Forall₂ Reindented body body') (hnested : TokenKind.Nested (body.map kind) 0)
    (hlast : ∀ k ∈ (body.map kind).getLast?, k.isStructural = true)
    (hblank : ∀ t ∈ body, t.BlankIfLayout) (hblank' : ∀ t ∈ body', t.BlankIfLayout)
    (hno : ∀ t ∈ body, t.kind.captures? = none) (stop stop' : Position) :
    Reflowed (fun _ _ => True) .opened 0
      (render .withoutPositions (body ++ [mark .eof stop]))
      (render .withoutPositions (body' ++ [mark .eof stop'])) := by
  have hkinds : (render .withoutPositions body).map kind = body.map kind := List.map_map
  rw [render_append, render_append]
  refine Reflowed.append (hkinds ▸ hnested) ?blank ?mark (fun _ _ => trivial) ?same ?last
  case blank =>
    intro t ht
    obtain ⟨u, hu, rfl⟩ := List.mem_map.mp ht
    rw [render_withoutPositions]
    exact hblank u hu
  case mark =>
    intro t ht hcaptures
    obtain ⟨u, hu, rfl⟩ := List.mem_map.mp ht
    exact absurd (hno u hu) hcaptures
  case same =>
    change List.Forall₂ _ (body.map _) (body'.map _)
    rw [List.forall₂_map_left_iff, List.forall₂_map_right_iff]
    refine List.forall₂_iff_get.mpr ⟨hbody.length_eq, fun i hi hi' => ?_⟩
    exact (hbody.get hi hi').indented (hblank _ (List.get_mem _ _)) (hblank' _ (List.get_mem _ _))
  case last =>
    refine .closing (Stance.endsLine_after ?_) (Stance.meets_refl _ trivial) (.ended rfl)
      (.ended rfl)
    rwa [hkinds]

/-- Tokens that agree but for indentations are parsed alike. -/
theorem Document.ofSource_of_reindented {source source' : String}
    (hno : ∀ t ∈ (Reading.transcribe source.toList).tokens.toList, t.kind.captures? = none)
    (h : List.Forall₂ Token.Reindented (Reading.transcribe source.toList).tokens.toList
      (Reading.transcribe source'.toList).tokens.toList) (options : ParseOptions) :
    render .withoutPositions (ofSource source' options).tree =
        render .withoutPositions (ofSource source options).tree ∧
      render .withoutPositions (ofSource source' options).parseErrors =
        render .withoutPositions (ofSource source options).parseErrors := by
  obtain ⟨body, stop, htokens, hnested, hlast, -⟩ := Reading.nested_transcribe source.toList
  obtain ⟨body', stop', htokens', hnested', -⟩ := Reading.nested_transcribe source'.toList
  have hblank := Reading.marked_transcribe source.toList
  have hblank' := Reading.marked_transcribe source'.toList
  unfold Transcript.Marked at hblank hblank'
  rw [htokens] at h hno hblank
  rw [htokens'] at h hblank'
  have hbody : List.Forall₂ Token.Reindented body body' := by
    have hlength : body.length = body'.length := by simpa using h.length_eq
    have htake := List.forall₂_take_append _ _ _ h
    rwa [← hlength, List.take_left] at htake
  have hne {body : List Token} (hnested : TokenKind.Nested (body.map (·.kind)) 0) :
      ∀ t ∈ body, t.kind ≠ .eof :=
    fun t ht heof => hnested.eof_notMem (heof ▸ List.mem_map_of_mem ht)
  have hend (p : Position) : (Token.mark .eof p).kind = .eof := rfl
  have hread := ParsedFile.ofTokens_render .withoutPositions (hne hnested) (hend stop) options
  have hread' := ParsedFile.ofTokens_render .withoutPositions (hne hnested') (hend stop') options
  have hreflowed := Token.reflowed_of_reindented hbody hnested hlast
    (fun t ht => hblank t (List.mem_append_left _ ht))
    (fun t ht => hblank' t (List.mem_append_left _ ht))
    (fun t ht => hno t (List.mem_append_left _ ht)) stop stop'
  rw [render_append, render_append] at hreflowed
  obtain ⟨htree, herrors⟩ := ParsedFile.ofTokens_reflowed rfl rfl (.inl hreflowed) options
  have hrender (body : List Token) (last : Token) :
      render .withoutPositions body ++ [render .withoutPositions last] =
        render .withoutPositions (body ++ [last]) := by
    rw [render_append]
    rfl
  rw [hrender, hrender, hread, hread'] at htree herrors
  unfold ofSource TokenizedText.ofLabelledSource
  dsimp only
  rw [htokens, htokens']
  exact ⟨htree.symm, ParseError.render_eq_of_forall₂_alike herrors⟩

/-- Only the order of the widths of lines matters: where no block is captured, other widths in the
same order give tokens of the same kinds, and of the same texts but for indentations, lexical errors
with the same messages, and the same tree and parse errors but for positions. -/
theorem Document.ofSource_withIndentation (source : String) (options : ParseOptions)
    (hno : ∀ t ∈ (TokenizedText.ofLabelledSource source options.file).tokens,
      t.kind.captures? = none)
    (f : Nat → Nat) (hf : StrictMono f) (hzero : f 0 = 0) :
    let text := TokenizedText.ofLabelledSource source options.file
    let text' := TokenizedText.ofLabelledSource (withIndentation f source) options.file
    let document := ofSource source options
    let document' := ofSource (withIndentation f source) options
    List.Forall₂ Token.Reindented text.tokens text'.tokens ∧
      text'.errors.map (·.message) = text.errors.map (·.message) ∧
      render .withoutPositions document'.tree = render .withoutPositions document.tree ∧
      render .withoutPositions document'.parseErrors =
        render .withoutPositions document.parseErrors := by
  obtain ⟨htokens, hcauses⟩ := Reading.reindented_transcribe hf hzero source.toList hno
  have hsource : (withIndentation f source).toList = indentedBy f (some 0) source.toList :=
    String.toList_ofList
  rw [← hsource] at htokens hcauses
  have hmessages := congrArg (List.map LexicalCause.message) hcauses
  refine ⟨?_, ?_, ?_⟩
  · unfold TokenizedText.ofLabelledSource
    dsimp only
    exact htokens
  · simpa [TokenizedText.ofLabelledSource, Transcript.causes, LexicalFault.toError,
      Function.comp_def] using hmessages
  · exact ofSource_of_reindented hno htokens options

/-- The text of an agent whose lines are indented by one, three and two blanks. -/
def unevenLines : String := "agent A:\n agentConfig:\n   k: [a,\nb]\n  d: 1\n"

/-- Each blank becomes two; the line that meets no level is still reported. -/
theorem Document.ofSource_withIndentation_uneven :
    (∀ t ∈ (TokenizedText.ofLabelledSource unevenLines none).tokens, t.kind.captures? = none) ∧
      StrictMono (fun n => 2 * n) ∧ 2 * 0 = 0 ∧
      withIndentation (fun n => 2 * n) unevenLines =
        "agent A:\n  agentConfig:\n      k: [a,\nb]\n    d: 1\n" ∧
      (TokenizedText.ofLabelledSource unevenLines none).errors.map (·.message) =
        [LexicalCause.inconsistentUnindent.message] ∧
      (TokenizedText.ofLabelledSource
        (withIndentation (fun n => 2 * n) unevenLines) none).errors.map (·.message) =
          [LexicalCause.inconsistentUnindent.message] := by
  have hno : ∀ t ∈ (TokenizedText.ofLabelledSource unevenLines none).tokens,
      t.kind.captures? = none := by decide +kernel
  have hmono : StrictMono fun n => 2 * n := fun m n h => by
    dsimp only
    omega
  have hmessages : (TokenizedText.ofLabelledSource unevenLines none).errors.map (·.message) =
      [LexicalCause.inconsistentUnindent.message] := by decide +kernel
  have h := ofSource_withIndentation unevenLines .standard hno (fun n => 2 * n) hmono rfl
  exact ⟨hno, hmono, rfl, by decide +kernel, hmessages, h.2.1.trans hmessages⟩

end AgentScript
