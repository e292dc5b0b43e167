import AgentScript.Proofs.LineEnds.Pieces
import AgentScript.Proofs.Reading.RoundForm
import AgentScript.Proofs.Rendering.Trees

/-!
# Rounds on a text with other line ends

A round within a line reads the same from the new text, a round over a line break takes the break
as it is now. The layouts behind the two rounds differ at most in the offsets of the brackets that
are open.
-/
namespace AgentScript

open CharClass Lexeme
open Rendered (render)

/-- Positions without their offsets, and line ends whatever they are written as. -/
def Rendering.withoutOffsets : Rendering where
  point p := ⟨p.line, p.column, 0⟩
  monotone h := by
    rw [Position.le_iff_not_lt, Position.lt_iff] at *
    dsimp only
    omega
  lineEnd _ := ""

/-- Positions agree without their offsets if they agree in line and column. -/
theorem Position.render_withoutOffsets_eq {p q : Position} :
    render .withoutOffsets p = render .withoutOffsets q ↔
      p.line = q.line ∧ p.column = q.column := by
  simp [render, Rendering.withoutOffsets]

instance : Rendered Bracket := ⟨fun _ b => b, fun _ => rfl⟩

namespace Layout

/-- Two layouts that agree but for the offsets of the open brackets. -/
def Alike (l l' : Layout) : Prop :=
  ∃ brackets, render .withoutOffsets brackets = render .withoutOffsets l.brackets ∧
    l' = { l with brackets := brackets }

variable {l l' : Layout}

theorem Alike.refl (l : Layout) : l.Alike l := ⟨l.brackets, rfl, rfl⟩

theorem Alike.isEmpty (h : l.Alike l') : l'.brackets.isEmpty = l.brackets.isEmpty := by
  obtain ⟨brackets, hb, rfl⟩ := h
  have hempty := congrArg List.isEmpty hb
  simpa [render] using hempty

theorem Alike.beginsLine (h : l.Alike l') : l'.beginsLine = l.beginsLine := by
  have hempty := h.isEmpty
  obtain ⟨brackets, -, rfl⟩ := h
  exact congrArg (l.atLineStart && ·) hempty

theorem Alike.openBracket (h : l.Alike l') (b : Bracket) {p p' : Position}
    (hp : render .withoutOffsets p' = render .withoutOffsets p) :
    (l.openBracket b p).Alike (l'.openBracket b p') := by
  obtain ⟨brackets, hb, rfl⟩ := h
  refine ⟨(b, p') :: brackets, ?_, rfl⟩
  exact congrArg₂ List.cons (congrArg (b, ·) hp) hb

theorem Alike.closeBracket (h : l.Alike l') : l.closeBracket.Alike l'.closeBracket := by
  obtain ⟨brackets, hb, rfl⟩ := h
  refine ⟨brackets.tail, ?_, rfl⟩
  change List.map _ brackets.tail = List.map _ l.brackets.tail
  rw [List.map_tail, List.map_tail]
  exact congrArg List.tail hb

end Layout

namespace Round

/-- A round on a text, and one on the text with other line ends. -/
structure Relined (e text : List Char) (a b : Round) : Prop where
  pieces : Piece.Relined e text a.pieces b.pieces
  layout : a.layout.Alike b.layout

variable {e text rest : List Char} {c : Char} {l l' : Layout}

/-- The two rounds are the same round, told by the line alone. -/
theorem Relined.scan {f g : List Char → Round} {text' : List Char}
    (hline : firstLine text' = firstLine text) (hsee : g (firstLine text) = g text)
    (hsee' : g (firstLine text') = g text')
    (hle : Piece.total (g text).pieces ≤ (firstLine text).length)
    (hpieces : (g text).pieces = (f text).pieces)
    (hlayout : (f text).layout.Alike (g text).layout) :
    Relined e text (f text) (g text') := by
  rw [← hsee', hline, hsee]
  exact ⟨hpieces ▸ .ofLine hle, hlayout⟩

/-- The two rounds leave the layout. -/
theorem Relined.ofPieces {ps ps' : List Piece} (hl : l.Alike l')
    (h : Piece.Relined e text ps ps') : Relined e text ⟨ps, l⟩ ⟨ps', l'⟩ := ⟨h, hl⟩

/-- The two rounds take the same pieces of the line and leave the layout. -/
theorem Relined.ofLine {pieces : List Piece} (hl : l.Alike l')
    (h : Piece.total pieces ≤ (firstLine text).length) : Relined e text ⟨pieces, l⟩ ⟨pieces, l'⟩ :=
  .ofPieces hl (.ofLine h)

theorem total_indentation (r : Reindent) (width : Nat) :
    Piece.total (indentation r width) = width := by
  have hdedents (n : Nat) : Piece.total (List.replicate n (.token .dedent 0)) = 0 := by
    induction n with
    | zero => rfl
    | succ n ih => rw [List.replicate_succ, Piece.total_cons, ih, Piece.width]
  unfold indentation
  split_ifs <;> simp [Piece.width, hdedents]

theorem beginLine_relined (he : IsLineEnd e) (hr : '\r' ∉ text) (hl : l.Alike l') :
    Relined e text (beginLine l text) (beginLine l' (relined e text)) := by
  obtain ⟨brackets, hb, rfl⟩ := hl
  have hline := firstLine_relined he hr
  have hblank : restIsBlank (relined e text) = restIsBlank text := by
    rw [← restIsBlank_firstLine, hline, restIsBlank_firstLine]
  have hwidth : blankLength (relined e text) = blankLength text := by
    rw [← onLine_blankLength.eq, hline, onLine_blankLength.eq]
  unfold beginLine
  dsimp only
  rw [hblank, hwidth, lineLength_relined he hr]
  split_ifs
  · exact ⟨.line he hr rfl (.nil _), brackets, hb, rfl⟩
  · refine ⟨.ofLine ?_, brackets, hb, rfl⟩
    exact (total_indentation _ _).trans_le (onLine_blankLength.le text)

theorem endLine_relined {n n' : Nat} (hl : l.Alike l')
    (htoken : Piece.Relined e text [.token .newline n] [.token .newline n'])
    (hskip : Piece.Relined e text [.skip n] [.skip n']) :
    Relined e text (endLine l n) (endLine l' n') := by
  unfold endLine
  rw [hl.isEmpty]
  obtain ⟨brackets, hb, rfl⟩ := hl
  split_ifs
  · exact ⟨htoken, brackets, hb, rfl⟩
  · exact ⟨hskip, brackets, hb, rfl⟩

/-- A line break within a line ends it. -/
theorem endLine_break_relined (he : IsLineEnd e) (hl : l.Alike l') :
    Relined e ('\n' :: rest) (endLine l (breakLength ('\n' :: rest)))
      (endLine l' (breakLength (relined e ('\n' :: rest)))) := by
  rw [breakLength_relined he]
  exact endLine_relined hl (.newline (.nil _)) (.skip (.nil _))

theorem thenEndLine_relined {ps ps' : List Piece} (hl : l.Alike l')
    (h : Piece.Relined e text ps ps') : Relined e text (thenEndLine ps l) (thenEndLine ps' l') := by
  have hend : Relined e (text.drop (Piece.total ps)) (endLine l 0) (endLine l' 0) :=
    endLine_relined hl (.same (Nat.zero_le _) (.nil _)) (.same (Nat.zero_le _) (.nil _))
  exact ⟨h.append hend.pieces, hend.layout⟩

theorem single_relined (hl : l.Alike l') {n : Nat} (h : n ≤ (firstLine text).length)
    (kind : TokenKind) : Relined e text (single l kind n) (single l' kind n) :=
  .ofLine hl h

/-- Whether a name follows is told by the line. -/
theorem nameFollows_firstLine (text : List Char) :
    nameFollows (firstLine text) = nameFollows text := by
  unfold nameFollows restIsBlank
  rw [nextSignificant?_firstLine]
  cases nextSignificant? text with
  | none => rfl
  | some c => cases hc : isLineBreak c <;> simp [hc, Option.filter]

theorem word_firstLine (l : Layout) (text : List Char) : word l (firstLine text) = word l text := by
  unfold word
  dsimp only
  rw [onLine_wordLength.eq, take_firstLine (onLine_wordLength.le text),
    ← firstLine_drop (onLine_wordLength.le text), nameFollows_firstLine]

theorem word_relined {text' : List Char} (hline : firstLine text' = firstLine text)
    (hl : l.Alike l') : Relined e text (word l text) (word l' text') := by
  obtain ⟨brackets, hb, rfl⟩ := hl
  refine .scan hline (word_firstLine _ _) (word_firstLine _ _) ?_ rfl ?_
  · simpa [word, Piece.width] using onLine_wordLength.le text
  · unfold word
    dsimp only
    split_ifs <;> exact ⟨brackets, hb, rfl⟩

section

variable {rest' : List Char} (hc : isLineBreak c = false)

include hc

theorem firstLine_cons_congr (hline : firstLine rest' = firstLine rest) :
    firstLine (c :: rest') = firstLine (c :: rest) := by
  rw [firstLine_cons hc, firstLine_cons hc, hline]

theorem properWord_firstLine (l : Layout) (rest : List Char) :
    properWord l (firstLine (c :: rest)) = properWord l (c :: rest) := by
  have hsegment : segmentLength (firstLine (c :: rest)) = segmentLength (c :: rest) := by
    rw [firstLine_cons hc, segmentLength, segmentLength, onLine_continuesSegment.eq]
  have hrun : properWordLength (firstLine (c :: rest)) = properWordLength (c :: rest) := by
    rw [firstLine_cons hc, properWordLength, properWordLength, onLine_continuesProperWord.eq]
  have hle : segmentLength (c :: rest) ≤ (firstLine (c :: rest)).length := by
    rw [firstLine_cons hc]
    exact Nat.succ_le_succ (onLine_continuesSegment.le rest)
  have hle' : properWordLength (c :: rest) ≤ (firstLine (c :: rest)).length := by
    rw [firstLine_cons hc]
    exact Nat.succ_le_succ (onLine_continuesProperWord.le rest)
  unfold properWord
  dsimp only
  rw [hsegment, hrun, take_firstLine hle, take_firstLine hle']

theorem total_properWord_le (l : Layout) (rest : List Char) :
    Piece.total (properWord l (c :: rest)).pieces ≤ (firstLine (c :: rest)).length := by
  rw [firstLine_cons hc]
  unfold properWord
  dsimp only
  split
  · exact Nat.succ_le_succ (onLine_continuesSegment.le rest)
  · exact Nat.succ_le_succ (onLine_continuesProperWord.le rest)

theorem properWord_relined (hline : firstLine rest' = firstLine rest) (hl : l.Alike l') :
    Relined e (c :: rest) (properWord l (c :: rest)) (properWord l' (c :: rest')) := by
  obtain ⟨brackets, hb, rfl⟩ := hl
  refine .scan (firstLine_cons_congr hc hline) (properWord_firstLine hc _ _)
    (properWord_firstLine hc _ _) (total_properWord_le hc _ _) ?_ ?_
  · unfold properWord
    dsimp only
    split <;> rfl
  · unfold properWord
    dsimp only
    split <;> exact ⟨brackets, hb, rfl⟩

theorem dash_firstLine (l : Layout) (rest : List Char) :
    dash l (firstLine (c :: rest)) = dash l (c :: rest) := by
  have hnumber := (staysOnLine_number (c :: rest)).eq
  rw [firstLine_cons hc] at hnumber ⊢
  unfold dash
  rw [hnumber, List.tail_cons, List.tail_cons]
  cases rest with
  | nil => rfl
  | cons d rest =>
    cases hd : isLineBreak d with
    | false => rw [firstLine_cons hd]; rfl
    | true =>
      rw [firstLine_break hd]
      rcases eq_of_isLineBreak hd with rfl | rfl <;> rfl

theorem total_dash_le (l : Layout) (rest : List Char) :
    Piece.total (dash l (c :: rest)).pieces ≤ (firstLine (c :: rest)).length := by
  have hone : 1 ≤ (firstLine (c :: rest)).length := by
    rw [firstLine_cons hc]
    exact Nat.succ_le_succ (Nat.zero_le _)
  unfold dash
  split
  · exact hone
  · next h =>
    obtain ⟨more, rfl⟩ : ∃ more, rest = '>' :: more := List.head?_eq_some_iff.mp h
    rw [firstLine_cons hc, firstLine_cons rfl]
    exact Nat.succ_le_succ (Nat.succ_le_succ (Nat.zero_le _))
  · split_ifs
    · exact (staysOnLine_number _).le
    · exact hone
    · exact hone

theorem dash_relined (hline : firstLine rest' = firstLine rest) (hl : l.Alike l') :
    Relined e (c :: rest) (dash l (c :: rest)) (dash l' (c :: rest')) := by
  obtain ⟨brackets, hb, rfl⟩ := hl
  refine .scan (firstLine_cons_congr hc hline) (dash_firstLine hc _ _) (dash_firstLine hc _ _)
    (total_dash_le hc _ _) ?_ ?_
  · unfold dash
    split
    · rfl
    · rfl
    · split_ifs <;> rfl
  · unfold dash
    split
    · exact ⟨brackets, hb, rfl⟩
    · exact ⟨brackets, hb, rfl⟩
    · split_ifs <;> exact ⟨brackets, hb, rfl⟩

end

/-- The characters passed agree, but one line break may stand for another. -/
def SamePassed (previous previous' : Option Char) : Prop :=
  previous' = previous ∨ previous.any isLineBreak = true ∧ previous'.any isLineBreak = true

theorem startsAtom_congr {previous previous' : Option Char} (h : SamePassed previous previous')
    (text : List Char) : startsAtom previous' text = startsAtom previous text := by
  have hpassed {previous : Option Char} (h : previous.any isLineBreak = true) :
      previous.all (fun p =>
        isWhitespace p || p == ',' || (Bracket.ofOpener? p).isSome) = true := by
    cases previous with
    | none => rfl
    | some p => simp [isWhitespace_break (c := p) h]
  rcases h with rfl | ⟨h, h'⟩
  · rfl
  · unfold startsAtom
    rw [hpassed h, hpassed h']

section

variable (hc : isLineBreak c = false)

include hc

theorem colon_firstLine (l : Layout) (previous : Option Char) (rest : List Char) :
    colon l previous (firstLine (c :: rest)) = colon l previous (c :: rest) := by
  have hatom : startsAtom previous (c :: firstLine rest) = startsAtom previous (c :: rest) := by
    unfold startsAtom
    rw [List.tail_cons, List.tail_cons, any_head?_firstLine (by decide) (by decide)]
  rw [firstLine_cons hc]
  unfold colon
  rw [hatom, List.tail_cons, List.tail_cons, onLine_wordLength.eq]
  unfold afterColon
  rw [restIsBlank_firstLine]

theorem total_colon_le (l : Layout) (previous : Option Char) (rest : List Char) :
    Piece.total (colon l previous (c :: rest)).pieces ≤ (firstLine (c :: rest)).length := by
  rw [firstLine_cons hc]
  unfold colon
  split_ifs
  · exact (Nat.add_comm 1 _).trans_le (Nat.succ_le_succ (onLine_wordLength.le rest))
  · exact Nat.succ_le_succ (Nat.zero_le _)

omit hc in
theorem afterColon_alike (hl : l.Alike l') (rest : List Char) :
    (afterColon l rest).Alike (afterColon l' rest) := by
  obtain ⟨brackets, hb, rfl⟩ := hl
  by_cases h : ((l.popModeIf .sectionName).modes.current != .booleanContext &&
      !restIsBlank rest) = true
  · have heq : afterColon l rest = _ := if_pos h
    have heq' : afterColon { l with brackets := brackets } rest = _ := if_pos h
    rw [heq, heq']
    exact ⟨brackets, hb, rfl⟩
  · have heq : afterColon l rest = _ := if_neg h
    have heq' : afterColon { l with brackets := brackets } rest = _ := if_neg h
    rw [heq, heq']
    exact ⟨brackets, hb, rfl⟩

theorem colon_relined {rest' : List Char} (hline : firstLine rest' = firstLine rest)
    {previous previous' : Option Char} (hpassed : SamePassed previous previous') (hl : l.Alike l') :
    Relined e (c :: rest) (colon l previous (c :: rest)) (colon l' previous' (c :: rest')) := by
  refine .scan (firstLine_cons_congr hc hline) (colon_firstLine hc _ _ _) (colon_firstLine hc _ _ _)
    (total_colon_le hc _ _ _) ?_ ?_
  · unfold colon
    rw [startsAtom_congr hpassed]
    split_ifs <;> rfl
  · unfold colon
    rw [startsAtom_congr hpassed]
    split_ifs
    · exact hl
    · exact afterColon_alike hl rest

end

theorem total_closeBracket (l : Layout) (b : Bracket) :
    Piece.total (closeBracket l b).pieces = 1 := by
  unfold closeBracket
  dsimp only
  rw [Piece.total_append]
  split
  · rfl
  · split_ifs <;> rfl

theorem closeBracket_relined (h : 1 ≤ (firstLine text).length) (hl : l.Alike l') (b : Bracket) :
    Relined e text (closeBracket l b) (closeBracket l' b) := by
  refine ⟨?_, hl.closeBracket⟩
  obtain ⟨brackets, hb, rfl⟩ := hl
  have hpieces : (closeBracket { l with brackets := brackets } b).pieces =
      (closeBracket l b).pieces := by
    unfold closeBracket
    dsimp only
    cases hopen : l.brackets with
    | nil =>
      rw [hopen] at hb
      rw [List.map_eq_nil_iff.mp hb]
    | cons top more =>
      rw [hopen] at hb
      obtain ⟨top', more', rfl, htop, -⟩ := List.map_eq_cons_iff.mp hb
      obtain ⟨o, p⟩ := top
      obtain ⟨o', p'⟩ := top'
      obtain rfl : o' = o := (Prod.mk.inj htop).1
      rfl
  rw [hpieces]
  exact .ofLine ((total_closeBracket l b).trans_le h)

theorem chompingMarker?_eq (text : List Char) :
    chompingMarker? text =
      if ['+', '|', '+'] <+: text then some (.preserveAll, 3)
      else if ['+', '|'] <+: text then some (.preserve, 2)
      else if ['|', '-'] <+: text then some (.strip, 2)
      else if ['|'] <+: text then some (.clean, 1)
      else none := by
  unfold chompingMarker?
  split
  · simp
  · next rest hall =>
    have hplus : ¬ ['+'] <+: rest := fun ⟨more, hmore⟩ => hall more hmore.symm
    simp [hplus]
  · simp
  · next rest hall =>
    have hminus : ¬ ['-'] <+: rest := fun ⟨more, hmore⟩ => hall more hmore.symm
    simp [hminus]
  · next hall hplus hstrip hbar =>
    rw [if_neg, if_neg, if_neg, if_neg]
    · rintro ⟨more, rfl⟩
      exact hbar more rfl
    · rintro ⟨more, rfl⟩
      exact hstrip more rfl
    · rintro ⟨more, rfl⟩
      exact hplus more rfl
    · rintro ⟨more, rfl⟩
      exact hall more rfl

/-- The marker of a multi-line string is on the line. -/
theorem chompingMarker?_firstLine (text : List Char) :
    chompingMarker? (firstLine text) = chompingMarker? text := by
  rw [chompingMarker?_eq, chompingMarker?_eq]
  have hmarker {m : List Char} (hm : m.all (!isLineBreak ·) = true) :
      m <+: firstLine text ↔ m <+: text := prefix_firstLine (by simpa using hm)
  simp only [hmarker (m := ['+', '|', '+']) rfl, hmarker (m := ['+', '|']) rfl,
    hmarker (m := ['|', '-']) rfl, hmarker (m := ['|']) rfl]

theorem le_of_chompingMarker? {m : Chomping × Nat} (h : chompingMarker? text = some m) :
    m.2 ≤ (firstLine text).length := by
  rw [← chompingMarker?_firstLine, chompingMarker?_eq] at h
  split_ifs at h with hall hplus hstrip hbar
  · cases h
    exact hall.length_le
  · cases h
    exact hplus.length_le
  · cases h
    exact hstrip.length_le
  · cases h
    exact hbar.length_le

section

variable (he : IsLineEnd e) (hc : isLineBreak c = false) (hr : '\r' ∉ rest)

include he hc hr

theorem embeddedCode_relined (hl : l.Alike l') :
    Relined e (c :: rest) (embeddedCode l (c :: rest)) (embeddedCode l' (c :: relined e rest)) := by
  have hline := firstLine_cons_congr hc (firstLine_relined he hr)
  have hform : markerForm? (c :: relined e rest) = markerForm? (c :: rest) := by
    rw [← markerForm?_firstLine hc, hline, markerForm?_firstLine hc]
  have hmarker : Piece.Relined e (c :: rest) (marker .block (c :: rest))
      (marker .block (c :: relined e rest)) :=
    .scan hline (staysOnLine_marker hc .block) (staysOnLine_marker hc .block)
  have hwidth : l'.lineWidth = l.lineWidth := by
    obtain ⟨brackets, -, rfl⟩ := hl
    rfl
  unfold embeddedCode
  rw [hform, hwidth]
  split
  · refine .ofLine hl ?_
    rw [firstLine_cons hc]
    exact Nat.succ_le_succ (Nat.zero_le _)
  · have hcode (rest : List Char) :
        StaysOnLine (embedded .inline l.lineWidth) (c :: rest) := staysOnLine_embedded_inline hc _
    exact .ofPieces hl (.scan hline (hcode rest) (hcode _))
  · rw [← relined_cons (ne_lineFeed hc)] at hmarker ⊢
    exact thenEndLine_relined hl (hmarker.andThen (capturedBlock_relined he _ _ fun hmem =>
      notMem_cons hc hr (List.mem_of_mem_drop hmem)))

theorem bar_relined (hl : l.Alike l') :
    Relined e (c :: rest) (bar l c (c :: rest)) (bar l' c (c :: relined e rest)) := by
  have hline := firstLine_cons_congr hc (firstLine_relined he hr)
  have hone : 1 ≤ (firstLine (c :: rest)).length := by
    rw [firstLine_cons hc]
    exact Nat.succ_le_succ (Nat.zero_le _)
  have hmarker : chompingMarker? (c :: relined e rest) = chompingMarker? (c :: rest) := by
    rw [← chompingMarker?_firstLine, hline, chompingMarker?_firstLine]
  have hwidth : l'.lineWidth = l.lineWidth := by
    obtain ⟨brackets, -, rfl⟩ := hl
    rfl
  unfold bar
  rw [hmarker, hwidth]
  cases hm : chompingMarker? (c :: rest) with
  | none => exact .ofLine hl hone
  | some m =>
    obtain ⟨chomping, n⟩ := m
    have hn : n ≤ (firstLine (c :: rest)).length := le_of_chompingMarker? hm
    have hdrop : (c :: relined e rest).drop n = relined e ((c :: rest).drop n) := by
      rw [← relined_cons (ne_lineFeed hc), drop_relined hn]
    have hr' : '\r' ∉ (c :: rest).drop n :=
      fun hmem => notMem_cons hc hr (List.mem_of_mem_drop hmem)
    have hblank : restIsBlank (relined e ((c :: rest).drop n)) =
        restIsBlank ((c :: rest).drop n) := by
      rw [← restIsBlank_firstLine, firstLine_relined he hr', restIsBlank_firstLine]
    dsimp only
    rw [hdrop, hblank]
    split_ifs
    · exact thenEndLine_relined hl (.same hn (capturedBlock_relined he _ _ hr'))
    · exact single_relined hl hone _
    · exact .ofLine hl hone

end

theorem within_relined (he : IsLineEnd e) (hc : isLineBreak c = false) (hr : '\r' ∉ rest)
    {previous previous' : Option Char} (hpassed : SamePassed previous previous') {p p' : Position}
    (hp : render .withoutOffsets p' = render .withoutOffsets p) (hl : l.Alike l') :
    Relined e (c :: rest) (within l previous p c (c :: rest))
      (within l' previous' p' c (c :: relined e rest)) := by
  have hline := firstLine_cons_congr hc (firstLine_relined he hr)
  have hone : 1 ≤ (firstLine (c :: rest)).length := by
    rw [firstLine_cons hc]
    exact Nat.succ_le_succ (Nat.zero_le _)
  refine within_related l l' previous previous' p p' c _ _ ?space ?lineBreak ?comment ?string ?tag
    ?code ?bar ?colon ?dash ?opening ?closing ?mark ?number ?proper ?word ?other
  case space => exact fun _ => .ofLine hl hone
  case lineBreak => exact fun hbreak => absurd hbreak (by simp [hc])
  case comment =>
    have hlength : lineLength (c :: relined e rest) = lineLength (c :: rest) :=
      congrArg List.length hline
    rw [hlength]
    exact fun _ => .ofLine hl (Nat.le_refl _)
  case string =>
    exact fun _ =>
      .ofPieces hl (.scan hline (staysOnLine_quotedString hc) (staysOnLine_quotedString hc))
  case tag =>
    rintro rfl
    have htag := staysOnLine_typeTag .typeTag rest
    have htag' := staysOnLine_typeTag .typeTag (relined e rest)
    rw [ModeStack.current_push, ModeStack.current_push]
    exact .ofPieces hl (.scan hline htag htag')
  case code => exact fun _ => embeddedCode_relined he hc hr hl
  case bar => exact bar_relined he hc hr hl
  case colon => exact fun _ => colon_relined hc (firstLine_relined he hr) hpassed hl
  case dash => exact fun _ => dash_relined hc (firstLine_relined he hr) hl
  case opening => exact fun b _ => ⟨.ofLine hone, hl.openBracket b hp⟩
  case closing => exact fun b _ => closeBracket_relined hone hl b
  case mark => exact fun kind _ => single_relined hl hone kind
  case number =>
    exact fun _ => .ofPieces hl (.scan hline (staysOnLine_number _) (staysOnLine_number _))
  case proper => exact fun _ => properWord_relined hc (firstLine_relined he hr) hl
  case word => exact fun _ => word_relined hline hl
  case other => exact .ofLine hl hone

end Round

end AgentScript
