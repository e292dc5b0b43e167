import AgentScript.Proofs.Reading.RewrittenBlocks
import AgentScript.Proofs.Reflow.Rounds

/-!
# A last line with and without its end

Two readings go along a text whose last line is not ended and along the same text with a line feed
behind it. A round sees no more than the line it stands on and the lines it captures, so both find
the same as long as the last line goes on. Where a blank line or a captured block reaches its end,
the one reading takes the line feed with it.
-/
namespace AgentScript

open CharClass Lexeme PhysicalLine

variable {text rest : List Char} {c : Char} {l : Layout}

/-- The last line of the text is not ended. -/
def Unended (text : List Char) : Prop := ∀ c ∈ text.getLast?, isLineBreak c = false

theorem Unended.of_getLast? (h : text.getLast? = some c) (hc : isLineBreak c = false) :
    Unended text := by
  intro last hlast
  obtain rfl : c = last := Option.some.inj (h.symm.trans hlast)
  exact hc

theorem Unended.drop (h : Unended text) (n : Nat) : Unended (text.drop n) := by
  intro c hc
  rw [List.getLast?_drop] at hc
  split_ifs at hc
  · exact nomatch hc
  · exact h c hc

theorem firstLine_feed (text : List Char) : firstLine (text ++ ['\n']) = firstLine text := by
  unfold firstLine
  induction text with
  | nil => rfl
  | cons c rest ih => rw [List.cons_append, List.takeWhile_cons, List.takeWhile_cons, ih]

theorem lineLength_feed (text : List Char) : lineLength (text ++ ['\n']) = lineLength text :=
  congrArg List.length (firstLine_feed text)

theorem restIsBlank_feed (text : List Char) : restIsBlank (text ++ ['\n']) = restIsBlank text := by
  rw [← restIsBlank_firstLine, firstLine_feed, restIsBlank_firstLine]

theorem captures_feed (base : Nat) (text : List Char) :
    captures base (text ++ ['\n']) = captures base text := by
  rw [← captures_firstLine, firstLine_feed, captures_firstLine]

/-- The first line is the last one, which is not ended, or it is ended and more lines follow it. -/
inductive FirstLine (text : List Char) : Prop
  | last (all : lineLength text = text.length)
  | ended (sameBreak : breakLength ((text ++ ['\n']).drop (lineLength text)) =
        breakLength (text.drop (lineLength text)))
      (more : lineLength text + breakLength (text.drop (lineLength text)) < text.length)

theorem Unended.firstLine (h : Unended text) : FirstLine text := by
  by_cases hne : text = []
  · exact .last (by rw [hne]; rfl)
  obtain ⟨line, following, rfl, -, hbefore⟩ := PhysicalLine.exists_first hne
  have hlength := hbefore.lineLength_eq
  by_cases hfollowing : following = []
  · subst hfollowing
    refine .last ?_
    have hending : line.ending = [] := by
      obtain ⟨lineText, ending⟩ := line
      cases hbefore.ending with
      | feed | both => cases h '\n' (by simp [chars])
      | carriageReturn => cases h '\r' (by simp [chars])
      | last => rfl
    rw [hlength]
    simp [chars, hending]
  · have hbefore' : line.Before (following ++ ['\n']) := by
      refine hbefore.rewrites (.refl 0 line) (fun hnil => absurd hnil hfollowing) fun hhead => ?_
      rwa [List.head?_append_of_ne_nil _ hfollowing] at hhead
    refine .ended ?_ ?_
    · rw [hlength, hbefore.breakLength_eq, List.append_assoc, hbefore'.breakLength_eq]
    · rw [hlength, hbefore.breakLength_eq]
      simpa [chars] using List.length_pos_iff.mpr hfollowing

/-- The pieces of a text and those of the text with a line feed behind it: the same, or the line
feed is skipped by the last of them. -/
inductive Piece.Fed (text : List Char) : List Piece → List Piece → Prop
  | same {ps : List Piece} (fits : total ps ≤ text.length) : Fed text ps ps
  | last {ps : List Piece} (usedUp : total ps = text.length) :
    Fed text (ps ++ [.skip 0]) (ps ++ [.skip 1])

open Piece

/-- Pieces before the text. -/
theorem Piece.Fed.behind {ps qs qs' : List Piece} (hps : total ps ≤ text.length)
    (h : Fed (text.drop (total ps)) qs qs') : Fed text (ps ++ qs) (ps ++ qs') := by
  cases h with
  | same fits =>
    rw [List.length_drop] at fits
    exact .same (by rw [total_append]; omega)
  | last usedUp =>
    rw [List.length_drop] at usedUp
    rw [← List.append_assoc, ← List.append_assoc]
    exact .last (by rw [total_append]; omega)

/-- A piece over a line, the break behind it, and the pieces of the lines below. -/
theorem Piece.Fed.line {p : Piece} (below : Scanner) (h : Unended text)
    (hp : p.width = lineLength text) (hnone : below [] = [])
    (hbelow : let rest := text.drop (lineLength text + breakLength (text.drop (lineLength text)))
      rest ≠ [] → Fed rest (below rest) (below (rest ++ ['\n']))) :
    let n := lineLength text
    let b := breakLength (text.drop n)
    let b' := breakLength ((text ++ ['\n']).drop n)
    Fed text (p :: .skip b :: below (text.drop (n + b)))
      (p :: .skip b' :: below ((text ++ ['\n']).drop (n + b'))) := by
  cases h.firstLine with
  | last all =>
    have hbreak : breakLength (text.drop (lineLength text)) = 0 := by
      rw [all, List.drop_length]
      rfl
    have hfeed : breakLength ((text ++ ['\n']).drop (lineLength text)) = 1 := by
      rw [all, List.drop_left]
      rfl
    have hrest : text.drop (lineLength text + 0) = [] := by rw [all, Nat.add_zero, List.drop_length]
    have hrest' : (text ++ ['\n']).drop (lineLength text + 1) = [] := by
      rw [all, List.drop_eq_nil_of_le (by simp)]
    dsimp only
    rw [hbreak, hfeed, hrest, hrest', hnone]
    change Fed text ([p] ++ [.skip 0]) ([p] ++ [.skip 1])
    exact .last (by simp [hp, all])
  | ended sameBreak more =>
    dsimp only
    rw [sameBreak, List.drop_append_of_le_length more.le]
    generalize hn : lineLength text + breakLength (text.drop (lineLength text)) = n at more hbelow ⊢
    have htotal : total [p, .skip (breakLength (text.drop (lineLength text)))] = n := by
      rw [total_cons, hp, ← hn]
      rfl
    have hbelow := hbelow (by simpa using more)
    rw [← htotal] at more hbelow ⊢
    exact hbelow.behind more.le

theorem capturedLines_fed (content : TokenKind) (base : Nat) (h : Unended text) (hne : text ≠ []) :
    Fed text (capturedLines content base text.length text)
      (capturedLines content base (text ++ ['\n']).length (text ++ ['\n'])) := by
  induction text using line_induction with
  | nil => exact absurd rfl hne
  | line text _ ih =>
    have hcaptures := captures_feed base text
    cases hcaptured : captures base text with
    | false =>
      rw [hcaptured] at hcaptures
      rw [capturedLines_of_stop (.inr hcaptured), capturedLines_of_stop (.inr hcaptures)]
      exact .same (Nat.zero_le _)
    | true =>
      rw [hcaptured] at hcaptures
      rw [capturedLines_of_captures hne hcaptured, capturedLines_of_captures (by simp) hcaptures,
        lineLength_feed]
      exact .line (fun body => capturedLines content base body.length body) h rfl rfl
        (ih (h.drop _))

theorem capturedBlock_fed (content : TokenKind) (base : Nat) (h : Unended text) :
    Fed text (capturedBlock content base text) (capturedBlock content base (text ++ ['\n'])) := by
  have htotal : total (if restIsBlank text then []
      else [.fault .textAfterBlockMarker (lineLength text)]) = 0 := by split_ifs <;> rfl
  unfold capturedBlock
  dsimp only
  rw [restIsBlank_feed, lineLength_feed]
  refine .behind (htotal ▸ Nat.zero_le _) ?_
  rw [htotal, List.drop_zero]
  exact .line (fun body => capturedLines content base body.length body) h rfl rfl
    (capturedLines_fed content base (h.drop _))

/-- A scanner within the line, and another one behind it. -/
theorem Piece.Fed.andThen {first second : Scanner} (h : StaysOnLine first text)
    (hsame : first (text ++ ['\n']) = first text)
    (hsecond : Fed (text.drop (total (first text))) (second (text.drop (total (first text))))
      (second (text.drop (total (first text)) ++ ['\n']))) :
    Fed text (Scanner.andThen first second text)
      (Scanner.andThen first second (text ++ ['\n'])) := by
  have hle : total (first text) ≤ text.length := h.le.trans (Lexeme.spanLength_le _ _)
  unfold Scanner.andThen
  dsimp only
  rw [hsame, List.drop_append_of_le_length hle]
  exact hsecond.behind hle

/-- The pieces hold a marker and nothing but what is captured for it. -/
def Piece.HoldBlock (ps : List Piece) : Prop :=
  ∃ marker content contents, marker.captures? = some content ∧ kinds ps = marker :: contents ∧
    ∀ k ∈ contents, k = content

namespace Round

/-- The round on a text and the one on the text with a line feed behind it: the same, or the line
feed is the end of a blank line or of captured lines. -/
inductive Fed (l : Layout) (text : List Char) : Round → Round → Prop
  | same {a : Round} (fits : total a.pieces ≤ text.length) : Fed l text a a
  | blank (begins : l.beginsLine = true) {n : Nat} (usedUp : n = text.length) :
      Fed l text ⟨[.skip n, .skip 0], l⟩ ⟨[.skip n, .skip 1], l⟩
  | captured (inside : l.beginsLine = false) {ps : List Piece} (usedUp : total ps = text.length)
      (block : HoldBlock ps) :
      Fed l text (thenEndLine (ps ++ [.skip 0]) l) (thenEndLine (ps ++ [.skip 1]) l)

theorem thenEndLine_fed (hl : l.beginsLine = false) {ps ps' : List Piece}
    (h : Piece.Fed text ps ps') (hblock : HoldBlock ps) :
    Fed l text (thenEndLine ps l) (thenEndLine ps' l) := by
  cases h with
  | same fits => exact .same (by simpa [thenEndLine, total_endLine] using fits)
  | last usedUp =>
    obtain ⟨marker, content, contents, hcontent, hkinds, hcontents⟩ := hblock
    rw [kinds_append] at hkinds
    exact .captured hl usedUp ⟨marker, content, contents, hcontent, by simpa [kinds] using hkinds,
      hcontents⟩

/-- A round that is told by the line alone. -/
theorem fed_of_oneOnLine {f : List Char → Round} (h : OneOnLine text (f (firstLine text)) (f text))
    (h' : OneOnLine (text ++ ['\n']) (f (firstLine (text ++ ['\n']))) (f (text ++ ['\n']))) :
    Fed l text (f text) (f (text ++ ['\n'])) := by
  rw [← h'.eq, firstLine_feed, h.eq]
  exact .same (h.le.trans (Lexeme.spanLength_le _ _))

theorem beginLine_fed (h : Unended text) (hl : l.beginsLine = true) :
    Fed l text (beginLine l text) (beginLine l (text ++ ['\n'])) := by
  have hwidth : blankLength (text ++ ['\n']) = blankLength text := by
    rw [← onLine_blankLength.eq, firstLine_feed, onLine_blankLength.eq]
  unfold beginLine
  rw [restIsBlank_feed, lineLength_feed, hwidth]
  split_ifs
  · cases h.firstLine with
    | last all =>
      rw [all, List.drop_length, List.drop_left]
      exact .blank hl rfl
    | ended sameBreak more =>
      rw [sameBreak]
      exact .same (by simpa [width] using more.le)
  · exact .same ((total_indentation _ _).trans_le (Lexeme.spanLength_le _ _))

theorem endLine_fed (h : Unended (c :: rest)) (hc : isLineBreak c = true) :
    Fed l (c :: rest) (endLine l (breakLength (c :: rest)))
      (endLine l (breakLength (c :: rest ++ ['\n']))) := by
  have hlength : lineLength (c :: rest) = 0 := by
    rw [← length_firstLine, firstLine_break hc]
    rfl
  cases h.firstLine with
  | last all => exact absurd (hlength.symm.trans all) (by simp)
  | ended sameBreak =>
    rw [hlength, List.drop_zero, List.drop_zero] at sameBreak
    rw [sameBreak]
    exact .same ((total_endLine l _).trans_le (breakLength_le _))

section

variable (h : Unended (c :: rest)) (hl : l.beginsLine = false)

include h hl

theorem bar_fed {chomping : Chomping} {n : Nat}
    (hmarker : chompingMarker? (c :: rest) = some (chomping, n))
    (halone : restIsBlank ((c :: rest).drop n) = true) :
    Fed l (c :: rest) (bar l c (c :: rest)) (bar l c (c :: rest ++ ['\n'])) := by
  have hmarker' : chompingMarker? (c :: rest ++ ['\n']) = some (chomping, n) := by
    rw [← chompingMarker?_firstLine, firstLine_feed, chompingMarker?_firstLine, hmarker]
  have hn : n ≤ (c :: rest).length :=
    (le_of_chompingMarker? hmarker).trans (Lexeme.spanLength_le _ _)
  unfold bar
  rw [hmarker, hmarker']
  dsimp only
  rw [List.drop_append_of_le_length hn, restIsBlank_feed, if_pos halone, if_pos halone]
  refine thenEndLine_fed hl ?_ ⟨_, .stringContent, _, rfl, rfl, kinds_capturedBlock _ _ _⟩
  have hblock := capturedBlock_fed .stringContent l.lineWidth (h.drop n)
  have hmarkerWidth : total [.token (.multiline chomping) n] ≤ (c :: rest).length := hn
  exact hblock.behind hmarkerWidth

theorem embeddedCode_fed (hc : isLineBreak c = false)
    (hform : markerForm? (c :: rest) = some .block) :
    Fed l (c :: rest) (embeddedCode l (c :: rest)) (embeddedCode l (c :: rest ++ ['\n'])) := by
  have hform' : markerForm? (c :: rest ++ ['\n']) = some .block := by
    rw [List.cons_append, ← markerForm?_firstLine hc, ← List.cons_append, firstLine_feed,
      markerForm?_firstLine hc, hform]
  have hmarker : StaysOnLine (marker .block) (c :: rest) := staysOnLine_marker hc .block
  unfold embeddedCode
  rw [hform, hform']
  refine thenEndLine_fed hl (.andThen hmarker ?_ (capturedBlock_fed _ _ (h.drop _))) ?_
  · have hmarker' : StaysOnLine (marker .block) (c :: (rest ++ ['\n'])) :=
      staysOnLine_marker hc .block
    rw [← hmarker.eq, ← firstLine_feed (c :: rest)]
    exact hmarker'.eq.symm
  · have hkinds : kinds (marker .block (c :: rest)) = [.embeddedBlockMarker] := by
      unfold marker
      dsimp only
      split_ifs <;> rfl
    refine ⟨.embeddedBlockMarker, .embeddedCode, kinds (capturedBlock .embeddedCode l.lineWidth
      ((c :: rest).drop (total (marker .block (c :: rest))))), rfl, ?_, kinds_capturedBlock _ _ _⟩
    unfold embedded Scanner.andThen
    rw [kinds_append, hkinds]
    rfl

theorem within_fed (hc : isLineBreak c = false) (previous : Option Char) (p : Position) :
    Fed l (c :: rest) (within l previous p c (c :: rest))
      (within l previous p c (c :: rest ++ ['\n'])) := by
  by_cases hblock : ∃ k n, BeginsWithMarker (c :: rest) k n
  · obtain ⟨k, n, hblock⟩ := hblock
    cases hblock with
    | multiline hmarker alone =>
      have hbar : c = '|' ∨ c = '+' := by
        unfold chompingMarker? at hmarker
        split at hmarker <;> simp_all
      rcases hbar with rfl | rfl
      · exact bar_fed h hl hmarker alone
      · exact bar_fed h hl hmarker alone
    | code dollar hform =>
      obtain rfl : c = '$' := by simpa using dollar
      exact embeddedCode_fed h hl hc hform
  · have hno (k : TokenKind) (n : Nat) : ¬BeginsWithMarker (c :: rest) k n :=
      fun hmarker => hblock ⟨k, n, hmarker⟩
    refine fed_of_oneOnLine (f := within l previous p c) (oneOnLine_within hc hno l previous p)
      (oneOnLine_within hc (fun k n hmarker => hno k n ?_) l previous p)
    exact hmarker.congr (firstLine_feed _).symm

end

/-- A round sees no more of the text than the line it stands on and the lines that it captures. -/
theorem next_fed {cursor : Cursor} (h : Unended cursor.rest) (hne : cursor.rest ≠ []) (l : Layout) :
    Fed l cursor.rest (next l cursor) (next l (cursor.withMore ['\n'])) := by
  obtain ⟨c, rest, hcons⟩ := List.exists_cons_of_ne_nil hne
  have hmore : (cursor.withMore ['\n']).rest = c :: (rest ++ ['\n']) :=
    congrArg (· ++ ['\n']) hcons
  cases hl : l.beginsLine with
  | true =>
    rw [next_beginsLine hl hne, next_beginsLine hl (by simp [hmore]), hmore, hcons]
    exact beginLine_fed (hcons ▸ h) hl
  | false =>
    rw [next_within hl hcons, next_within hl hmore, hcons]
    rw [hcons] at h
    cases hc : isLineBreak c with
    | true =>
      rw [within_break hc, within_break hc]
      exact endLine_fed h hc
    | false => exact within_fed h hl hc _ _

end Round

end AgentScript
