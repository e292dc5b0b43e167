import AgentScript.Proofs.Reading.SkippedText
import AgentScript.Proofs.Reading.Transcription

/-!
# Lines and levels of a tokenized text

The tokens of any text form closed lines in nested levels: indentations open levels only at
the beginning of lines, ends of blocks never outnumber them and balance them in the end, and
no line is left open before a layout token other than its own end. The text of a layout token is
whitespace or nothing, so none can be mistaken for a word.
-/
namespace AgentScript

namespace TokenKind

/-- What may stand directly after a token: an indentation follows the end of a line only, and
a token of a line is followed by another one or by the end of the line. -/
def MayPrecede (a b : TokenKind) : Prop :=
  (b = indent → a = newline) ∧ (a.isStructural = false → b = newline ∨ b.isStructural = false)

/-- The kinds read so far, with `depth` levels open. -/
structure Nested (kinds : List TokenKind) (depth : Nat) : Prop where
  count_eq : kinds.count indent = kinds.count dedent + depth
  prefix_le : ∀ p, p <+: kinds → p.count dedent ≤ p.count indent
  adjacent : kinds.IsChain MayPrecede
  eof_notMem : eof ∉ kinds

/-- The kind may stand at the end of the kinds. -/
def MayFollow (kinds : List TokenKind) (k : TokenKind) : Prop :=
  ∀ last ∈ kinds.getLast?, last.MayPrecede k

variable {kinds : List TokenKind} {depth : Nat} {k : TokenKind}

theorem nested_nil : Nested [] 0 :=
  ⟨rfl, by simp, .nil, by simp⟩

theorem mayFollow_of_inLine (h : k.isStructural = false) : MayFollow kinds k := by
  intro last _
  refine ⟨?_, fun _ => .inr h⟩
  rintro rfl
  exact nomatch h

theorem mayFollow_newline : MayFollow kinds newline :=
  fun _ _ => ⟨fun h => TokenKind.noConfusion h, fun _ => .inl rfl⟩

/-- After a layout token, or at the very beginning, the end of a block or of the text may
stand. -/
theorem mayFollow_of_structural (hk : k ≠ indent)
    (h : ∀ last ∈ kinds.getLast?, last.isStructural = true) : MayFollow kinds k := by
  intro last hlast
  refine ⟨fun he => absurd he hk, fun hflat => ?_⟩
  rw [h last hlast] at hflat
  exact nomatch hflat

theorem adjacent_concat (h : kinds.IsChain MayPrecede) (hk : MayFollow kinds k) :
    (kinds ++ [k]).IsChain MayPrecede := by
  refine h.append (List.isChain_singleton k) ?_
  intro a ha b hb
  cases hb
  exact hk a ha

theorem prefix_le_concat (h : ∀ p, p <+: kinds → p.count dedent ≤ p.count indent)
    (hk : (kinds ++ [k]).count dedent ≤ (kinds ++ [k]).count indent) {p : List TokenKind}
    (hp : p <+: kinds ++ [k]) : p.count dedent ≤ p.count indent := by
  rcases List.prefix_concat_iff.mp hp with rfl | hp
  · exact hk
  · exact h p hp

theorem Nested.push (h : Nested kinds depth) (hk : MayFollow kinds k) (hindent : k ≠ indent)
    (hdedent : k ≠ dedent) (heof : k ≠ eof) : Nested (kinds ++ [k]) depth := by
  have hcount := h.count_eq
  have hi : (kinds ++ [k]).count indent = kinds.count indent := by
    simp [List.count_append, hindent]
  have hd : (kinds ++ [k]).count dedent = kinds.count dedent := by
    simp [List.count_append, hdedent]
  refine ⟨by omega, fun p => prefix_le_concat h.prefix_le (by omega), adjacent_concat h.adjacent hk,
    ?_⟩
  simp [h.eof_notMem, Ne.symm heof]

theorem Nested.openLevel (h : Nested kinds depth) (hk : MayFollow kinds TokenKind.indent) :
    Nested (kinds ++ [TokenKind.indent]) (depth + 1) := by
  have hcount := h.count_eq
  have hi : (kinds ++ [TokenKind.indent]).count TokenKind.indent =
      kinds.count TokenKind.indent + 1 := by simp
  have hd : (kinds ++ [TokenKind.indent]).count TokenKind.dedent =
      kinds.count TokenKind.dedent := by
    simp [List.count_append]
  refine ⟨by omega, fun p => prefix_le_concat h.prefix_le (by omega), adjacent_concat h.adjacent hk,
    ?_⟩
  simp [h.eof_notMem]

theorem Nested.closeLevel (h : Nested kinds (depth + 1)) (hk : MayFollow kinds TokenKind.dedent) :
    Nested (kinds ++ [TokenKind.dedent]) depth := by
  have hcount := h.count_eq
  have hi : (kinds ++ [TokenKind.dedent]).count TokenKind.indent =
      kinds.count TokenKind.indent := by
    simp [List.count_append]
  have hd : (kinds ++ [TokenKind.dedent]).count TokenKind.dedent =
      kinds.count TokenKind.dedent + 1 := by simp
  refine ⟨by omega, fun p => prefix_le_concat h.prefix_le (by omega), adjacent_concat h.adjacent hk,
    ?_⟩
  simp [h.eof_notMem]

theorem Nested.inLine (h : Nested kinds depth) {flat : List TokenKind}
    (hflat : ∀ k ∈ flat, k.isStructural = false) : Nested (kinds ++ flat) depth := by
  induction flat generalizing kinds with
  | nil => simpa using h
  | cons k rest ih =>
    have hk := hflat k (List.mem_cons_self ..)
    have hnext : Nested (kinds ++ [k]) depth :=
      h.push (mayFollow_of_inLine hk) (by rintro rfl; exact nomatch hk)
        (by rintro rfl; exact nomatch hk) (by rintro rfl; exact nomatch hk)
    simpa using ih hnext fun j hj => hflat j (List.mem_cons_of_mem _ hj)

theorem Nested.closeLevels (n : Nat) (h : Nested kinds (depth + n))
    (hlast : ∀ last ∈ kinds.getLast?, last.isStructural = true) :
    Nested (kinds ++ List.replicate n TokenKind.dedent) depth := by
  induction n generalizing kinds with
  | zero => simpa using h
  | succ n ih =>
    have hnext : Nested (kinds ++ [TokenKind.dedent]) (depth + n) :=
      h.closeLevel (mayFollow_of_structural (by decide) hlast)
    rw [List.replicate_succ, ← List.singleton_append, ← List.append_assoc]
    exact ih hnext (by simp [isStructural])

/-- What the last of nested kinds stands behind is nested, and allows it. -/
theorem Nested.exists_of_concat (h : Nested (kinds ++ [k]) depth) :
    ∃ before, Nested kinds before ∧ MayFollow kinds k ∧
      before + [k].count indent = depth + [k].count dedent := by
  have hcount := h.count_eq
  have hle := h.prefix_le kinds (List.prefix_append _ _)
  rw [List.count_append, List.count_append] at hcount
  obtain ⟨hadjacent, -, hfollow⟩ := List.isChain_append.mp h.adjacent
  refine ⟨kinds.count indent - kinds.count dedent, ⟨by omega, ?_, hadjacent, ?_⟩, ?_, by omega⟩
  · exact fun p hp => h.prefix_le p (hp.trans (List.prefix_append _ _))
  · exact fun hmem => h.eof_notMem (List.mem_append_left _ hmem)
  · exact fun last hlast => hfollow last hlast k rfl

end TokenKind

open TokenKind

namespace Piece

/-- The kinds of the tokens among pieces. -/
def kinds (pieces : List Piece) : List TokenKind :=
  pieces.filterMap fun
    | .token kind _ => some kind
    | _ => none

theorem kinds_append (ps qs : List Piece) : kinds (ps ++ qs) = kinds ps ++ kinds qs :=
  List.filterMap_append

theorem isStructural_of_mem_kinds {pieces : List Piece} (h : ∀ p ∈ pieces, p.inLine = true) :
    ∀ k ∈ kinds pieces, k.isStructural = false := by
  intro k hk
  obtain ⟨p, hp, hpk⟩ := List.mem_filterMap.mp hk
  have hin := h p hp
  cases p with
  | skip n => cases hpk
  | token kind n =>
    cases hpk
    simpa [inLine] using hin
  | fault cause n => cases hpk

end Piece

namespace Transcript

def kinds (t : Transcript) : List TokenKind := t.tokens.toList.map (·.kind)

theorem kinds_extend (t : Transcript) (p : Piece) :
    (t.extend p).kinds = t.kinds ++ Piece.kinds [p] := by
  cases p <;> simp [extend, kinds, Piece.kinds]

theorem kinds_extendAll (t : Transcript) (ps : List Piece) :
    (t.extendAll ps).kinds = t.kinds ++ Piece.kinds ps := by
  induction ps generalizing t with
  | nil => simp [Piece.kinds]
  | cons p ps ih =>
    rw [extendAll_cons, ih, kinds_extend, List.append_assoc, ← Piece.kinds_append]
    rfl

theorem endsInLine_eq (t : Transcript) :
    t.endsInLine = t.kinds.getLast?.any fun k => !k.isStructural := by
  rw [endsInLine, kinds, List.getLast?_map, Array.getLast?_toList]
  cases t.tokens.back? <;> rfl

end Transcript

namespace Reading

/-- What ties the layout of a reading to the kinds of its tokens. -/
structure Laid (r : Reading) : Prop where
  nested : Nested r.transcript.kinds r.layout.levels.length
  atStart : r.layout.atLineStart = true →
    r.layout.brackets = [] ∧ ∀ last ∈ r.transcript.kinds.getLast?, last = newline

theorem laid_start (text : List Char) : (start text).Laid :=
  ⟨nested_nil, by simp [start, Layout.initial, Transcript.start, Transcript.kinds]⟩

theorem kinds_round (r : Reading) :
    r.round.transcript.kinds =
      r.transcript.kinds ++ Piece.kinds (Round.next r.layout r.transcript.cursor).pieces :=
  r.transcript.kinds_extendAll _

theorem kinds_indentation_opens (width : Nat) (levels : List Nat) :
    Piece.kinds (Round.indentation ⟨levels, true, 0, true⟩ width) = [indent] := rfl

theorem kinds_indentation_closes (levels : List Nat) (closes : Nat) (consistent : Bool)
    (width : Nat) :
    Piece.kinds (Round.indentation ⟨levels, false, closes, consistent⟩ width) =
      List.replicate closes dedent := by
  cases consistent <;> simp [Round.indentation, Piece.kinds]

/-- A line that opens no level closes as many as the levels become fewer. -/
theorem ofWidth_closes {levels : List Nat} {width : Nat} (h : ¬ levels.headD 0 < width) :
    ∃ closes consistent, closes ≤ levels.length ∧
      Reindent.ofWidth levels width = ⟨levels.drop closes, false, closes, consistent⟩ := by
  have hle : (levels.takeWhile (width < ·)).length ≤ levels.length :=
    (List.takeWhile_sublist _).length_le
  unfold Reindent.ofWidth
  rw [if_neg h]
  refine ⟨_, _, ?_, rfl⟩
  split_ifs <;> omega

theorem nested_indentation {r : Reading} (h : r.Laid) (hstart : r.layout.atLineStart = true)
    (width : Nat) :
    Nested (r.transcript.kinds ++
        Piece.kinds (Round.indentation (Reindent.ofWidth r.layout.levels width) width))
      (r.layout.enterLine width).levels.length := by
  have hlast := (h.atStart hstart).2
  simp only [Layout.enterLine]
  by_cases hopens : r.layout.levels.headD 0 < width
  · rw [Reindent.ofWidth_opens hopens, kinds_indentation_opens]
    exact h.nested.openLevel fun last hl =>
      ⟨fun _ => hlast last hl, by rw [hlast last hl]; simp [isStructural]⟩
  · obtain ⟨closes, consistent, hle, heq⟩ := ofWidth_closes hopens
    rw [heq, kinds_indentation_closes, List.length_drop]
    refine Nested.closeLevels closes ?_ fun last hl => by rw [hlast last hl]; rfl
    rw [Nat.sub_add_cancel hle]
    exact h.nested

theorem laid_round {r : Reading} (hrest : r.rest ≠ []) (h : r.Laid) : r.round.Laid := by
  have hform := Round.next_form r.layout hrest
  have hkinds := kinds_round r
  have hlayout : r.round.layout = (Round.next r.layout r.transcript.cursor).layout := rfl
  generalize Round.next r.layout r.transcript.cursor = next at hform hkinds hlayout
  cases hform with
  | blank =>
    simp only [Piece.kinds, List.filterMap_cons, List.filterMap_nil, List.append_nil] at hkinds
    exact ⟨by rw [hkinds, hlayout]; exact h.nested, by rw [hkinds, hlayout]; exact h.atStart⟩
  | indented begins =>
    have hstart : r.layout.atLineStart = true := (Bool.and_eq_true_iff.mp begins).1
    exact ⟨by rw [hkinds, hlayout]; exact nested_indentation h hstart _,
      by rw [hlayout]; exact fun hs => nomatch hs⟩
  | within inside modes brackets inLine progress =>
    refine ⟨?_, ?_⟩
    · rw [hkinds, hlayout]
      exact h.nested.inLine (Piece.isStructural_of_mem_kinds inLine)
    · rw [hlayout]
      intro hstart
      exact absurd inside (by simp [Layout.beginsLine, show r.layout.atLineStart = true from hstart,
        (h.atStart hstart).1])
  | ended inside closed inLine progress =>
    rw [Piece.kinds_append] at hkinds
    refine ⟨?_, ?_⟩
    · rw [hkinds, hlayout, ← List.append_assoc]
      exact (h.nested.inLine (Piece.isStructural_of_mem_kinds inLine)).push mayFollow_newline
        (by decide) (by decide) (by decide)
    · rw [hlayout, hkinds]
      intro _
      exact ⟨closed, by simp [Piece.kinds]⟩

end Reading

/-- Tokens that form closed lines in nested levels, over a text of the given length. -/
structure WellLaid (length : Nat) (tokens : List Token) : Prop where
  /-- The end of the text stands last and nowhere else, over no characters. -/
  ending : ∃ body last, tokens = body ++ [last] ∧ (∀ t ∈ body, t.kind ≠ eof) ∧
    last.kind = eof ∧ last.text = "" ∧ last.start = last.stop ∧ last.start.offset = length
  /-- No more blocks end than have begun. -/
  prefix_le : ∀ p, p <+: tokens.map (·.kind) → p.count dedent ≤ p.count indent
  /-- All blocks end. -/
  balanced : (tokens.map (·.kind)).count dedent = (tokens.map (·.kind)).count indent
  /-- Blocks begin at the beginning of a line. -/
  opening : ∀ i, (tokens.map (·.kind))[i + 1]? = some indent →
    (tokens.map (·.kind))[i]? = some newline
  /-- A token of a line is followed by another one or by the end of the line. -/
  closing : ∀ i k, (tokens.map (·.kind))[i]? = some k → k.isStructural = false →
    ∃ l, (tokens.map (·.kind))[i + 1]? = some l ∧ (l = newline ∨ l.isStructural = false)

namespace Reading

/-- Everything before the end of the text is nested, and the end may follow it. -/
theorem Laid.nested_finish {r : Reading} (h : r.Laid) :
    ∃ body, r.finish.tokens.toList = body ++ [.mark eof r.transcript.cursor.position] ∧
      Nested (body.map (·.kind)) 0 ∧
      ∀ last ∈ (body.map (·.kind)).getLast?, last.isStructural = true := by
  set closed := r.transcript.kinds ++ (if r.transcript.endsInLine then [newline] else [])
    with hclosed
  have hnested : Nested closed r.layout.levels.length ∧
      ∀ last ∈ closed.getLast?, last.isStructural = true := by
    rw [hclosed, Transcript.endsInLine_eq]
    split_ifs with hends
    · exact ⟨h.nested.push mayFollow_newline (by decide) (by decide) (by decide),
        by simp [isStructural]⟩
    · rw [List.append_nil]
      refine ⟨h.nested, fun last hl => ?_⟩
      rw [Option.mem_def.mp hl] at hends
      simpa using hends
  set marks := (if r.transcript.endsInLine then [newline] else []) ++
    List.replicate r.layout.levels.length dedent with hmarks
  set body := r.transcript.tokens.toList ++
    marks.map (Token.mark · r.transcript.cursor.position) with hbody
  have hkinds : body.map (·.kind) = closed ++ List.replicate r.layout.levels.length dedent := by
    rw [hbody, hmarks, hclosed, List.map_append, List.map_map, List.append_assoc]
    simp [Transcript.kinds, Token.mark, Function.comp_def]
  refine ⟨body, ?_, ?_, ?_⟩
  · rw [tokens_finish, hbody, hmarks]
    simp [endMarks]
  · rw [hkinds]
    refine Nested.closeLevels _ ?_ hnested.2
    rw [Nat.zero_add]
    exact hnested.1
  · intro last hl
    rw [hkinds, List.getLast?_append] at hl
    cases hn : r.layout.levels.length with
    | zero => exact hnested.2 last (by simpa [hn] using hl)
    | succ n =>
      rw [hn, List.getLast?_replicate] at hl
      cases hl
      rfl

/-- The tokens of a text before its end are nested. -/
theorem nested_transcribe (text : List Char) :
    ∃ body stop, (transcribe text).tokens.toList = body ++ [.mark eof stop] ∧
      Nested (body.map (·.kind)) 0 ∧
      (∀ last ∈ (body.map (·.kind)).getLast?, last.isStructural = true) ∧
      stop.offset = text.length := by
  obtain ⟨r, ⟨hlaid, hfollows⟩, hrest, heq⟩ := transcribe_induction
    (P := fun r => r.Laid ∧ r.transcript.Follows text)
    ⟨laid_start _, Transcript.follows_start _⟩
    fun r hr h => ⟨laid_round hr h.1, follows_round h.2⟩
  obtain ⟨body, hbody, hnested, hlast⟩ := hlaid.nested_finish
  have hlen := hfollows.along.offset_add_length
  rw [show r.transcript.cursor.rest = [] from hrest] at hlen
  exact ⟨body, _, heq ▸ hbody, hnested, hlast, hlen⟩

end Reading

section

open CharClass Lexeme

/-- A layout token has no text but whitespace. -/
def Token.BlankIfLayout (t : Token) : Prop :=
  t.isStructural = true → ∀ c ∈ t.text.toList, isWhitespace c = true

theorem Token.blankIfLayout_mark (kind : TokenKind) (p : Position) :
    (Token.mark kind p).BlankIfLayout := by
  simp [BlankIfLayout, mark]

namespace Transcript

/-- All layout tokens of a transcript stand over whitespace. -/
def Marked (t : Transcript) : Prop := ∀ k ∈ t.tokens.toList, k.BlankIfLayout

variable {t : Transcript}

theorem Marked.push (h : t.Marked) {kind : TokenKind} {n : Nat}
    (hblank : kind.isStructural = true →
      ∀ c ∈ t.cursor.rest.take n, isWhitespace c = true) :
    (t.extend (.token kind n)).Marked := by
  intro k hk
  simp only [extend, Array.toList_push, List.mem_append, List.mem_singleton] at hk
  rcases hk with hk | rfl
  · exact h k hk
  · intro hlayout c hc
    rw [String.toList_ofList] at hc
    exact hblank hlayout c hc

theorem Marked.inLine (h : t.Marked) {pieces : List Piece} (hp : ∀ p ∈ pieces, p.inLine = true) :
    (t.extendAll pieces).Marked := by
  induction pieces generalizing t with
  | nil => exact h
  | cons p pieces ih =>
    have hlater : ∀ q ∈ pieces, q.inLine = true := fun q hq => hp q (List.mem_cons_of_mem _ hq)
    have hfirst := hp p (List.mem_cons_self ..)
    cases p with
    | skip n => exact ih h hlater
    | fault cause n => exact ih h hlater
    | token kind n =>
      refine ih (h.push fun hlayout => ?_) hlater
      rw [Piece.inLine, hlayout] at hfirst
      cases hfirst

theorem Marked.dedents (h : t.Marked) (n : Nat) :
    (t.extendAll (List.replicate n (.token .dedent 0))).Marked := by
  induction n generalizing t with
  | zero => exact h
  | succ n ih => exact ih (h.push (by simp))

theorem Marked.indentation (h : t.Marked) (r : Reindent) :
    (t.extendAll (Round.indentation r (blankLength t.cursor.rest))).Marked := by
  have hskip {u : Transcript} (hu : u.Marked) (n : Nat) :
      ((u.extend (.skip n)).extendAll (List.replicate r.closes (.token .dedent 0))).Marked :=
    Marked.dedents (t := u.extend (.skip n)) hu r.closes
  unfold Round.indentation
  split_ifs
  · exact h.push fun _ => isWhitespace_of_mem_take_blankLength
  · exact hskip h _
  · exact hskip (u := t.extend (.fault .inconsistentUnindent _)) h _

end Transcript

namespace Reading

variable {r : Reading}

theorem marked_round (hrest : r.rest ≠ []) (h : r.transcript.Marked) :
    r.round.transcript.Marked := by
  have hform := Round.next_form r.layout hrest
  unfold round
  dsimp only
  generalize Round.next r.layout r.transcript.cursor = next at hform ⊢
  cases hform with
  | blank => exact h
  | indented => exact h.indentation _
  | within inside modes brackets inLine => exact h.inLine inLine
  | ended inside closed inLine progress blank =>
    rw [Transcript.extendAll_append]
    refine (h.inLine inLine).push fun _ => ?_
    rw [Transcript.extendAll_cursor, Cursor.advance_rest]
    exact blank

/-- The layout tokens of a whole text stand over whitespace. -/
theorem marked_transcribe (text : List Char) : (transcribe text).Marked := by
  obtain ⟨r, h, -, heq⟩ := transcribe_induction (P := fun r => r.transcript.Marked)
    (by simp [start, Transcript.start, Transcript.Marked]) fun r hr h => marked_round hr h
  intro k hk
  rw [heq, tokens_finish] at hk
  rcases List.mem_append.mp hk with hk | hk
  · exact h k hk
  · obtain ⟨kind, -, rfl⟩ := List.mem_map.mp hk
    exact Token.blankIfLayout_mark _ _

end Reading

end

theorem TokenKind.mayPrecede_of_isChain {kinds : List TokenKind}
    (h : kinds.IsChain MayPrecede) {i : Nat}
    {a b : TokenKind} (ha : kinds[i]? = some a) (hb : kinds[i + 1]? = some b) :
    a.MayPrecede b := by
  obtain ⟨hi, rfl⟩ := List.getElem?_eq_some_iff.mp hb
  obtain ⟨_, rfl⟩ := List.getElem?_eq_some_iff.mp ha
  exact List.isChain_iff_getElem.mp h i hi

/-- The tokens of every text form closed lines in nested levels. -/
theorem tokens_wellLaid (source : String) :
    WellLaid source.toList.length (TokenizedText.ofSource source).tokens := by
  obtain ⟨body, stop, htokens, hnested, hlast, hstop⟩ := Reading.nested_transcribe source.toList
  have htokens : (TokenizedText.ofSource source).tokens = body ++ [.mark eof stop] := htokens
  have hmap : (TokenizedText.ofSource source).tokens.map (·.kind) = body.map (·.kind) ++ [eof] := by
    rw [htokens, List.map_append]
    rfl
  set before := body.map (·.kind) with hbefore
  have hchain : (before ++ [eof]).IsChain MayPrecede :=
    adjacent_concat hnested.adjacent (mayFollow_of_structural (by decide) hlast)
  have hcount : (before ++ [eof]).count dedent = (before ++ [eof]).count indent := by
    have := hnested.count_eq
    simp only [List.count_append, List.count_singleton]
    simpa using this.symm
  refine ⟨?_, ?_, ?_, ?_, ?_⟩
  · refine ⟨body, _, htokens, fun t ht he => ?_, rfl, rfl, rfl, hstop⟩
    exact hnested.eof_notMem (he ▸ List.mem_map_of_mem ht)
  · rw [hmap]
    exact fun p => prefix_le_concat hnested.prefix_le hcount.le
  · rw [hmap]
    exact hcount
  · rw [hmap]
    intro i hi
    obtain ⟨hlt, -⟩ := List.getElem?_eq_some_iff.mp hi
    have ha : (before ++ [eof])[i]? = some (before ++ [eof])[i] :=
      List.getElem?_eq_getElem (by omega)
    rw [ha, (mayPrecede_of_isChain hchain ha hi).1 rfl]
  · rw [hmap]
    intro i k hi hk
    have hlt : i + 1 < (before ++ [eof]).length := by
      obtain ⟨hlt, hget⟩ := List.getElem?_eq_some_iff.mp hi
      by_contra hge
      have hend : i = before.length := by
        rw [List.length_append, List.length_singleton] at hlt hge
        omega
      subst hend
      rw [List.getElem_concat_length rfl] at hget
      subst hget
      exact nomatch hk
    have hb : (before ++ [eof])[i + 1]? = some (before ++ [eof])[i + 1] :=
      List.getElem?_eq_getElem hlt
    exact ⟨_, hb, (mayPrecede_of_isChain hchain hi hb).2 hk⟩

end AgentScript
