import AgentScript.Proofs.Reading.BlockReadings
import AgentScript.Proofs.Reading.Continuation
import AgentScript.Proofs.Reading.SideBySide
import AgentScript.Proofs.Writing.Lexemes

/-!
# Blocks with other lines

The lines that a marker captures can be written anew. As long as none of them becomes blank or less
deep, the text is read as before up to the marker, the new lines are captured in place of the old
ones, and what is read behind the block stands on the same lines.
-/
namespace AgentScript

open CharClass Lexeme PhysicalLine TokenKind

variable {base n : Nat} {l line : PhysicalLine} {run run' : List PhysicalLine}
  {text mark rest following following' : List Char} {kind content : TokenKind}
  {marker : Token} {before after : List Token}

namespace PhysicalLine

/-- Where a line is ended, so is the text up to there. -/
theorem Before.linesBefore (h : l.Before following) (hne : l.ending ≠ []) (front : List Char) :
    LinesBefore (front ++ l.chars) following := by
  obtain ⟨text, ending⟩ := l
  intro c hc
  rw [chars, ← List.append_assoc, List.getLast?_append_of_ne_nil _ hne] at hc
  cases h.ending with
  | feed | both => exact .inl (by simpa using hc.symm)
  | carriageReturn alone => exact .inr ⟨by simpa using hc.symm, alone⟩
  | last => exact absurd rfl hne

/-- The lines end as before, if something follows them. -/
theorem getLast?_rewrites (h : Parted run rest) (hne : rest ≠ [])
    (hrun : List.Forall₂ (Rewrites base) run run') :
    (join run').getLast? = (join run).getLast? := by
  induction hrun with
  | nil => rfl
  | @cons l l' run run' hl _ ih =>
    obtain ⟨-, hbefore, hrun⟩ := h
    have hending : l.ending ≠ [] := hbefore.ending_ne_nil (by simp [hne])
    have hchars : l'.chars.getLast? = l.chars.getLast? := by
      rw [chars, chars, hl.ending, List.getLast?_append_of_ne_nil _ hending,
        List.getLast?_append_of_ne_nil _ hending]
    rw [join_cons, join_cons, List.getLast?_append, List.getLast?_append, ih hrun, hchars]

/-- Only the line tells of a marker, not what stands below. -/
theorem Before.beginsWithMarker (h : l.Before following) (h' : l.Before following')
    (hmarker : BeginsWithMarker (mark ++ (l.chars ++ following)) kind mark.length) :
    BeginsWithMarker (mark ++ (l.chars ++ following')) kind mark.length := by
  have hmark := hmarker.unbroken
  rw [List.take_left] at hmark
  have hline {following : List Char} (h : l.Before following) :
      firstLine (mark ++ (l.chars ++ following)) = mark ++ l.text := by
    have hbefore : Before ⟨mark ++ l.text, l.ending⟩ following :=
      ⟨fun c hc => (List.mem_append.mp hc).elim (hmark c) (h.unbroken c), h.ending⟩
    simpa [chars] using hbefore.firstLine_eq
  exact hmarker.congr (by rw [hline h, hline h'])

end PhysicalLine

/-- Behind lines and behind the ones in their place the same text follows on the same line. -/
theorem Cursor.abreast_rewrites {c : Cursor} (hc : c.rest = []) (h : Parted run rest)
    (hrun : List.Forall₂ (Rewrites base) run run') :
    ((c.withMore (join run ++ rest)).advance (join run).length).Abreast
      ((c.withMore (join run' ++ rest)).advance (join run').length) := by
  have hrest (ls : List PhysicalLine) : (c.withMore (join ls ++ rest)).rest = join ls ++ rest := by
    rw [withMore, hc, List.nil_append]
  constructor
  case rest => rw [advance_rest, advance_rest, hrest, hrest, List.drop_left, List.drop_left]
  case tracker =>
    rw [advance_tracker, advance_tracker, hrest, hrest, List.take_left, List.take_left]
    exact Tracker.Level.rewrites ⟨rfl, rfl⟩ h hrun
  case previous =>
    intro hne
    rw [advance_rest, hrest, List.drop_left] at hne
    rw [previous_advance (hrest run), previous_advance (hrest run'), getLast?_rewrites h hne hrun]
    rfl

namespace Reading

/-- The reading before a text that goes on. -/
def withMore (more : List Char) (r : Reading) : Reading :=
  ⟨r.layout, r.transcript.withMore more⟩

theorem rest_withMore (more : List Char) (r : Reading) : (r.withMore more).rest = r.rest ++ more :=
  rfl

/-- What stands behind a text is not seen before the text is used up. -/
theorem rounds_withMore {m : Nat} (h : LinesBefore text following)
    (h' : LinesBefore text following')
    (hahead : following.length < (rounds m (start (text ++ following))).rest.length) :
    rounds m (start (text ++ following)) = (rounds m (start text)).withMore following ∧
      rounds m (start (text ++ following')) = (rounds m (start text)).withMore following' := by
  have hsame : rounds m (start (text ++ following)) =
      (rounds m (start text)).withMore following := by
    cases (goesOn_start h).rounds m with
    | ahead _ same => exact same
    | outlived houtlived => exact absurd houtlived.behind (by omega)
  rw [hsame, rest_withMore, List.length_append] at hahead
  refine ⟨hsame, ?_⟩
  cases (goesOn_start h').rounds m with
  | ahead _ same => exact same
  | outlived houtlived =>
    rw [houtlived.usedUp] at hahead
    exact absurd hahead (by simp)

variable {r : Reading}

theorem markerToken_withMore (h : n ≤ r.rest.length) (more : List Char) :
    (r.withMore more).markerToken kind n = r.markerToken kind n := by
  have hadvance := Cursor.advance_withMore (c := r.transcript.cursor) h more
  change Token.mk kind (String.ofList ((r.rest ++ more).take n)) _
    ((r.transcript.cursor.withMore more).advance n).position = _
  rw [hadvance, List.take_append_of_le_length h]
  rfl

namespace BeforeBlock

section

variable (h : r.BeforeBlock kind content n line run rest)

include h

theorem ending_ne_nil (hne : run ≠ []) : line.ending ≠ [] := by
  refine h.ended.ending_ne_nil ?_
  obtain ⟨l, more, rfl⟩ := List.exists_cons_of_ne_nil hne
  simp [h.parted.1]

theorem length_take : (r.rest.take n).length = n :=
  List.length_take_of_le (h.marker.length_le.trans (Lexeme.spanLength_le _ _))

/-- The marker stands before the lines below. -/
theorem length_lt : (join run ++ rest).length < r.rest.length := by
  have hlength := congrArg List.length h.behind
  have hmark := h.length_take
  have hpos := h.marker.length_pos
  rw [List.length_drop, List.length_append] at hlength
  rw [List.length_take] at hmark
  omega

end

variable (h : (r.withMore (join run ++ rest)).BeforeBlock kind content mark.length line run rest)
  (hr : r.rest = mark ++ line.chars)
  (hrun : List.Forall₂ (Rewrites r.layout.lineWidth) run run')

include h hr hrun

/-- Other lines in the place of the captured ones are captured. -/
theorem rewrites :
    (r.withMore (join run' ++ rest)).BeforeBlock kind content mark.length line run' rest := by
  obtain ⟨hnil, hfeed⟩ := join_rewrites hrun h.parted
  have hended : line.Before (join run' ++ rest) := h.ended.rewrites (.refl 0 line) hnil hfeed
  have hrest (more : List Char) : (r.withMore more).rest = mark ++ (line.chars ++ more) := by
    rw [rest_withMore, hr, List.append_assoc]
  constructor
  case inside => exact h.inside
  case marker =>
    have hmarker := h.marker
    rw [hrest] at hmarker ⊢
    exact h.ended.beginsWithMarker hended hmarker
  case content => exact h.content
  case behind => rw [hrest, List.drop_left]
  case ended => exact hended
  case parted => exact h.parted.rewrites hrun
  case captured => exact isCaptured_rewrites hrun h.captured
  case stop => exact h.stop

theorem behindBlock_abreast :
    ((r.withMore (join run ++ rest)).behindBlock mark.length line run).Abreast
      ((r.withMore (join run' ++ rest)).behindBlock mark.length line run') := by
  have hlength : mark.length + line.chars.length = r.rest.length := by
    rw [hr, List.length_append]
  have hcursor (ls : List PhysicalLine) :
      (r.withMore (join ls ++ rest)).behindBlock mark.length line ls =
        ((r.transcript.cursor.advance r.rest.length).withMore (join ls ++ rest)).advance
          (join ls).length := by
    have hline := Cursor.advance_withMore (c := r.transcript.cursor) (n := r.rest.length)
      (Nat.le_refl _) (join ls ++ rest)
    rw [← hline, behindBlock, ← Cursor.advance_add mark.length, hlength]
    rfl
  rw [hcursor, hcursor]
  refine Cursor.abreast_rewrites ?_ h.parted hrun
  rw [Cursor.advance_rest]
  exact List.drop_length

/-- Behind the block the two readings stand side by side. -/
theorem round_abreast :
    (r.withMore (join run ++ rest)).round.Abreast (r.withMore (join run' ++ rest)).round := by
  obtain ⟨hlayout, hcursor, -⟩ := h.round_eq
  obtain ⟨hlayout', hcursor', -⟩ := (h.rewrites hr hrun).round_eq
  constructor
  case layout => rw [hlayout, hlayout']; rfl
  case cursor =>
    rw [hcursor, hcursor']
    exact h.behindBlock_abreast hr hrun

theorem lineEnd_abreast : List.Forall₂ Token.OnSameLines
    ((r.withMore (join run ++ rest)).lineEnd mark.length line run)
    ((r.withMore (join run' ++ rest)).lineEnd mark.length line run') :=
  (h.behindBlock_abreast hr hrun).tokens _

/-- Both readings have read tokens of the same kinds. -/
theorem kinds_round : (r.withMore (join run' ++ rest)).round.transcript.kinds =
    (r.withMore (join run ++ rest)).round.transcript.kinds := by
  obtain ⟨-, -, contents, htokens, hcontents⟩ := h.round_eq
  obtain ⟨-, -, contents', htokens', hcontents'⟩ := (h.rewrites hr hrun).round_eq
  have hends := Token.map_kind_of_onSameLines (h.lineEnd_abreast hr hrun)
  rw [Transcript.kinds, Transcript.kinds, htokens, htokens']
  simp only [List.map_append, List.map_cons, hcontents.kinds, hcontents'.kinds, hrun.length_eq,
    hends]
  rfl

end BeforeBlock

/-- What has been read of the same kinds is followed by what is. -/
theorem ReadAlike.kinds {s s' r' : Reading} (h : ReadAlike r r' s s')
    (hkinds : r'.transcript.kinds = r.transcript.kinds) :
    s'.transcript.kinds = s.transcript.kinds := by
  obtain ⟨new, new', hnew, hnew', hsame⟩ := h
  rw [Transcript.kinds, Transcript.kinds, hnew, hnew', List.map_append, List.map_append,
    Token.map_kind_of_onSameLines hsame]
  exact congrArg (· ++ _) hkinds

theorem Abreast.endTokens {r' : Reading} (h : r.Abreast r')
    (hkinds : r'.transcript.kinds = r.transcript.kinds) :
    List.Forall₂ Token.OnSameLines r.endTokens r'.endTokens := by
  have hlevels : r'.layout.unplaced.levels = r.layout.unplaced.levels :=
    congrArg Layout.levels h.layout
  have hmarks : r'.endMarks = r.endMarks := by
    rw [endMarks, endMarks, Transcript.endsInLine_eq, Transcript.endsInLine_eq, hkinds]
    exact congrArg (fun levels : List Nat => _ ++ (List.replicate levels.length _ ++ _)) hlevels
  have hline := h.cursor.tracker.line
  rw [Reading.endTokens, Reading.endTokens, hmarks, List.forall₂_map_left_iff,
    List.forall₂_map_right_iff, List.forall₂_same]
  exact fun kind _ => ⟨rfl, rfl, hline, hline⟩

end Reading

/-- The text with other lines in the place of those that a marker captures. -/
def withBlockLines (text : List Char) (before : List Token) (marker : Token)
    (run : List PhysicalLine) : List Char :=
  text.take marker.stop.offset ++ markerLine text marker ++
    (join run ++ behindLines text before marker)

theorem withBlockLines_blockLines (text : List Char) (before : List Token) (marker : Token) :
    withBlockLines text before marker (blockLines text before marker) = text := by
  have hlines : join (blockLines text before marker) ++ behindLines text before marker =
      join (linesBelow text marker) := by
    rw [blockLines, behindLines, ← join_append, List.takeWhile_append_dropWhile]
  have hbehind : markerLine text marker ++ join (linesBelow text marker) =
      text.drop marker.stop.offset := by
    rw [markerLine, linesBelow, ← join_append, ← List.drop_one, List.take_append_drop, join_split]
  rw [withBlockLines, hlines, List.append_assoc, hbehind, List.take_append_drop]

namespace Reading

/-- Up to a marker both texts are read the same, without a look at the lines below. -/
theorem exists_withMore (hcontent : marker.kind.captures? = some content)
    (h : (transcribe text).tokens.toList = before ++ marker :: after)
    (hne : blockLines text before marker ≠ [])
    (hrun : List.Forall₂ (Rewrites (lineIndentation text before)) (blockLines text before marker)
      run') :
    ∃ (m : Nat) (r : Reading) (mark : List Char) (line : PhysicalLine),
      r.rest = mark ++ line.chars ∧
      rounds m (start text) =
        r.withMore (join (blockLines text before marker) ++ behindLines text before marker) ∧
      rounds m (start (withBlockLines text before marker run')) =
        r.withMore (join run' ++ behindLines text before marker) ∧
      (rounds m (start text)).StandsBefore before marker mark.length ∧
      (rounds m (start text)).BeforeBlock marker.kind content mark.length line
        (blockLines text before marker) (behindLines text before marker) := by
  obtain ⟨m, n, hmarker⟩ := exists_standsBefore hcontent h
  obtain ⟨line, hline, hblock⟩ := hmarker.beforeBlock hcontent
  have htext := withBlockLines_blockLines text before marker
  unfold withBlockLines at htext ⊢
  rw [← hline] at htext ⊢
  generalize behindLines text before marker = rest at *
  generalize blockLines text before marker = run at *
  obtain ⟨hnil, hfeed⟩ := join_rewrites hrun hblock.parted
  have hended' : line.Before (join run' ++ rest) := hblock.ended.rewrites (.refl 0 line) hnil hfeed
  have hending := hblock.ending_ne_nil hne
  have hahead := hblock.length_lt
  have hmark := hblock.length_take
  have hrounds := rounds_withMore (m := m) (hblock.ended.linesBefore hending
    (text.take marker.stop.offset)) (hended'.linesBefore hending _) (by rwa [htext])
  rw [htext] at hrounds
  obtain ⟨hold, hnew⟩ := hrounds
  refine ⟨m, _, (rounds m (start text)).rest.take n, line, ?_, hold, hnew, ?_, ?_⟩
  · rw [← List.append_left_inj (join run ++ rest), ← rest_withMore, ← hold, List.append_assoc,
      ← hblock.behind, List.take_append_drop]
  · rwa [hmark]
  · rwa [hmark]

/-- Other lines in a block are read in place of the old ones, and nothing else changes but columns
and offsets. -/
theorem block_rewritten {contents others : List Token}
    (hcontent : marker.kind.captures? = some content)
    (h : (transcribe text).tokens.toList = before ++ marker :: (contents ++ others))
    (hcontents : Carry content contents (blockLines text before marker))
    (hrun : List.Forall₂ (Rewrites (lineIndentation text before)) (blockLines text before marker)
      run') :
    ∃ contents' others' : List Token,
      (transcribe (withBlockLines text before marker run')).tokens.toList =
        before ++ marker :: (contents' ++ others') ∧
      Carry content contents' run' ∧ List.Forall₂ Token.OnSameLines others others' := by
  have htext := withBlockLines_blockLines text before marker
  by_cases hnil : blockLines text before marker = []
  · rw [hnil] at hrun hcontents htext
    cases hrun
    exact ⟨contents, others, by rw [htext, h], hcontents, List.forall₂_same.mpr fun t _ => .refl t⟩
  obtain ⟨m, r, mark, line, hr, hold, hnew, hmarker, hblock⟩ :=
    exists_withMore hcontent h hnil hrun
  rw [← hmarker.lineWidth, hold] at hrun
  rw [hold] at hmarker hblock
  generalize withBlockLines text before marker run' = text' at hnew ⊢
  generalize behindLines text before marker = rest at *
  generalize blockLines text before marker = run at *
  have hblock' := hblock.rewrites hr hrun
  obtain ⟨hend, hread⟩ := (hblock.round_abreast hr hrun).rounds
    (max (2 * text.length + 1) (2 * text'.length + 1))
  have hkinds := hread.kinds (hblock.kinds_round hr hrun)
  obtain ⟨later, later', hlater, hlater', hsame⟩ := hread
  obtain ⟨contents₀, hcontents₀, htokens⟩ :=
    hblock.tokens_transcribe hold (Nat.le_max_left _ _) hlater
  obtain ⟨contents', hcontents', htokens'⟩ :=
    hblock'.tokens_transcribe hnew (Nat.le_max_right _ _) hlater'
  -- the old tokens are the ones that the reading of the old block gives
  rw [h, hmarker.tokens, hmarker.token] at htokens
  obtain ⟨-, hafter⟩ := List.cons.inj (List.append_cancel_left htokens)
  obtain ⟨rfl, rfl⟩ :=
    List.append_inj hafter (hcontents.length_eq.trans hcontents₀.length_eq.symm)
  have hlength : mark.length ≤ r.rest.length := by rw [hr, List.length_append]; omega
  have htoken : (r.withMore (join run' ++ rest)).markerToken marker.kind mark.length = marker := by
    rw [markerToken_withMore hlength, ← markerToken_withMore hlength, hmarker.token]
  have hothers := List.rel_append (hblock.lineEnd_abreast hr hrun)
    (List.rel_append hsame (hend.endTokens hkinds))
  refine ⟨contents', _, ?_, hcontents', hothers⟩
  rw [htokens', htoken]
  exact congrArg (· ++ _) hmarker.tokens

end Reading

/-- Behind a marker stand the lines of its block, one token a line and as they are written, and all
else is on lines below them. Other lines that are not blank and still deeper than the marker's line
can take the place of those that are not blank: they are captured in turn, and every other token
keeps its kind, its text and its line. -/
theorem blockLines_captured (source : String) (file : Option String)
    (hcontent : marker.kind.captures? = some content)
    (h : (TokenizedText.ofLabelledSource source file).tokens = before ++ marker :: after) :
    ∃ contents others : List Token, after = contents ++ others ∧
      Carry content contents (blockLines source.toList before marker) ∧
      (∀ t ∈ others.head?, t.kind ≠ content) ∧
      (∀ t ∈ others, t.isStructural = false →
        marker.start.line + (blockLines source.toList before marker).length < t.start.line) ∧
      ∀ run', List.Forall₂ (Rewrites (lineIndentation source.toList before))
          (blockLines source.toList before marker) run' →
        ∃ contents' others' : List Token,
          (TokenizedText.ofLabelledSource
            (String.ofList (withBlockLines source.toList before marker run')) file).tokens =
              before ++ marker :: (contents' ++ others') ∧
          Carry content contents' run' ∧ List.Forall₂ Token.OnSameLines others others' := by
  obtain ⟨contents, others, rfl, hcontents, hhead, hlines⟩ := Reading.block_read hcontent h
  refine ⟨contents, others, rfl, hcontents, hhead, hlines, fun run' hrun => ?_⟩
  unfold TokenizedText.ofLabelledSource
  rw [String.toList_ofList]
  exact Reading.block_rewritten hcontent h hcontents hrun

/-- A bracket that is not closed, written into the block of a string. -/
theorem blockLines_captured_openBracket :
    let before : List Token :=
      [⟨.commonNoun, "k", ⟨1, 1, 0⟩, ⟨1, 2, 1⟩⟩, ⟨.colon, ":", ⟨1, 2, 1⟩, ⟨1, 3, 2⟩⟩]
    let marker : Token := ⟨.multiline .clean, "|", ⟨1, 4, 3⟩, ⟨1, 5, 4⟩⟩
    (TokenizedText.ofLabelledSource "k: |\n  a\nb" none).tokens.take 3 = before ++ [marker] ∧
      marker.kind.captures? = some .stringContent ∧
      Rewrites 0 ⟨"  a".toList, ['\n']⟩ ⟨" [b:".toList, ['\n']⟩ ∧
      ∃ contents others others' : List Token,
        (TokenizedText.ofLabelledSource "k: |\n [b:\nb" none).tokens =
          before ++ marker :: (contents ++ others') ∧
        Carry .stringContent contents [⟨" [b:".toList, ['\n']⟩] ∧
        List.Forall₂ Token.OnSameLines others others' := by
  intro before marker
  have hmarker : (TokenizedText.ofLabelledSource "k: |\n  a\nb" none).tokens = before ++ marker ::
      (TokenizedText.ofLabelledSource "k: |\n  a\nb" none).tokens.drop 3 := by decide +kernel
  have hline : Rewrites 0 ⟨"  a".toList, ['\n']⟩ ⟨" [b:".toList, ['\n']⟩ :=
    ⟨rfl, .inr ⟨rfl, rfl, by decide, by simp [isLineBreak]⟩⟩
  have hlines : blockLines "k: |\n  a\nb".toList before marker = [⟨"  a".toList, ['\n']⟩] := by
    decide +kernel
  have hwidth : lineIndentation "k: |\n  a\nb".toList before = 0 := by decide +kernel
  have hcontent : marker.kind.captures? = some .stringContent := rfl
  obtain ⟨_, others, -, -, -, -, hrewritten⟩ :=
    blockLines_captured "k: |\n  a\nb" none hcontent hmarker
  rw [hlines, hwidth] at hrewritten
  obtain ⟨contents, others', htokens, hcontents, hothers⟩ :=
    hrewritten [⟨" [b:".toList, ['\n']⟩] (.cons hline .nil)
  exact ⟨by decide +kernel, hcontent, hline, contents, others, others', htokens, hcontents, hothers⟩

end AgentScript
