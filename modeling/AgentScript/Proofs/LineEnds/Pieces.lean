import AgentScript.Proofs.LineEnds.Scanners

/-!
# Pieces of a text with other line ends

In a text without carriage returns every line feed can be replaced by a carriage return, or by a
pair of both. The new text has the same pieces, except that a piece over a line break takes as
many characters as the break has now.
-/
namespace AgentScript

open CharClass Lexeme

/-- The text with another line end in the place of every line feed. -/
def relined (lineEnd text : List Char) : List Char :=
  text.flatMap fun c => if c = '\n' then lineEnd else [c]

/-- The line ends besides the line feed. -/
inductive IsLineEnd : List Char → Prop
  | carriageReturn : IsLineEnd ['\r']
  | both : IsLineEnd ['\r', '\n']

variable {e text rest : List Char} {c : Char} {n : Nat}

theorem relined_break (e rest : List Char) : relined e ('\n' :: rest) = e ++ relined e rest := rfl

theorem relined_cons (hc : c ≠ '\n') (e rest : List Char) :
    relined e (c :: rest) = c :: relined e rest := by
  unfold relined
  rw [List.flatMap_cons, if_neg hc]
  rfl

theorem ne_lineFeed (hc : isLineBreak c = false) : c ≠ '\n' := by
  rintro rfl
  exact nomatch hc

theorem notMem_cons (hc : isLineBreak c = false) (h : '\r' ∉ rest) : '\r' ∉ c :: rest := by
  refine List.not_mem_cons_of_ne_of_not_mem ?_ h
  rintro rfl
  exact nomatch hc

theorem relined_eq_nil (he : IsLineEnd e) : relined e text = [] ↔ text = [] := by
  cases text with
  | nil => exact iff_of_true rfl rfl
  | cons c rest =>
    by_cases hc : c = '\n'
    · subst hc
      rw [relined_break]
      cases he <;> simp
    · rw [relined_cons hc]
      simp

/-- No line of the new text begins with a line feed. -/
theorem head?_relined_ne (he : IsLineEnd e) : (relined e text).head? ≠ some '\n' := by
  cases text with
  | nil => exact nofun
  | cons c rest =>
    by_cases hc : c = '\n'
    · subst hc
      rw [relined_break]
      cases he <;> simp
    · rw [relined_cons hc]
      simpa using hc

theorem breakLength_relined (he : IsLineEnd e) :
    breakLength (relined e ('\n' :: rest)) = e.length := by
  rw [relined_break]
  cases he with
  | both => rfl
  | carriageReturn =>
    have hhead : (relined ['\r'] rest).head? ≠ some '\n' := head?_relined_ne .carriageReturn
    cases hrest : relined ['\r'] rest with
    | nil => rfl
    | cons d more =>
      rw [hrest] at hhead
      have hd : d ≠ '\n' := fun h => hhead (by rw [h]; rfl)
      simp [breakLength, hd]

theorem firstLine_relined (he : IsLineEnd e) (h : '\r' ∉ text) :
    firstLine (relined e text) = firstLine text := by
  induction text with
  | nil => rfl
  | cons c rest ih =>
    obtain ⟨hreturn, hrest⟩ := not_or.mp (List.mem_cons.not.mp h)
    by_cases hc : c = '\n'
    · subst hc
      rw [relined_break]
      cases he <;> rfl
    · have hbreak : isLineBreak c = false := by simp [isLineBreak, hc, Ne.symm hreturn]
      rw [relined_cons hc, firstLine_cons hbreak, firstLine_cons hbreak, ih hrest]

theorem lineLength_relined (he : IsLineEnd e) (h : '\r' ∉ text) :
    lineLength (relined e text) = lineLength text := congrArg List.length (firstLine_relined he h)

theorem drop_relined (h : n ≤ (firstLine text).length) :
    (relined e text).drop n = relined e (text.drop n) := by
  induction n generalizing text with
  | zero => rfl
  | succ n ih =>
    cases text with
    | nil => rfl
    | cons c rest =>
      cases hc : isLineBreak c with
      | true =>
        rw [firstLine_break hc] at h
        exact absurd h (Nat.not_succ_le_zero n)
      | false =>
        rw [firstLine_cons hc] at h
        rw [relined_cons (ne_lineFeed hc)]
        exact ih (Nat.le_of_succ_le_succ h)

theorem take_relined (he : IsLineEnd e) (h : '\r' ∉ text) (hn : n ≤ (firstLine text).length) :
    (relined e text).take n = text.take n := by
  rw [← take_firstLine hn, ← firstLine_relined he h, take_firstLine]
  rwa [firstLine_relined he h]

/-- Behind a whole line stands a line feed, or nothing. -/
theorem drop_firstLine (h : '\r' ∉ text) :
    text.drop (firstLine text).length = [] ∨
      ∃ rest, text.drop (firstLine text).length = '\n' :: rest := by
  induction text with
  | nil => exact .inl rfl
  | cons c rest ih =>
    obtain ⟨hreturn, hrest⟩ := not_or.mp (List.mem_cons.not.mp h)
    cases hc : isLineBreak c with
    | false =>
      rw [firstLine_cons hc]
      exact ih hrest
    | true =>
      rw [firstLine_break hc]
      rcases eq_of_isLineBreak hc with rfl | rfl
      · exact .inr ⟨rest, rfl⟩
      · exact absurd rfl hreturn

/-- The pieces at the beginning of a text, and those of the text with other line ends. -/
inductive Piece.Relined (e : List Char) : List Char → List Piece → List Piece → Prop
  | nil (text : List Char) : Relined e text [] []
  | same {text : List Char} {p : Piece} {ps ps' : List Piece}
      (h : p.width ≤ (firstLine text).length) (later : Relined e (text.drop p.width) ps ps') :
      Relined e text (p :: ps) (p :: ps')
  | skip {rest : List Char} {ps ps' : List Piece} (later : Relined e rest ps ps') :
      Relined e ('\n' :: rest) (.skip 1 :: ps) (.skip e.length :: ps')
  | newline {rest : List Char} {ps ps' : List Piece} (later : Relined e rest ps ps') :
      Relined e ('\n' :: rest) (.token .newline 1 :: ps) (.token .newline e.length :: ps')

namespace Piece

variable {ps ps' qs qs' : List Piece}

theorem Relined.ofLine (h : total ps ≤ (firstLine text).length) : Relined e text ps ps := by
  induction ps generalizing text with
  | nil => exact .nil text
  | cons p ps ih =>
    rw [total_cons] at h
    refine .same (by omega) (ih ?_)
    rw [firstLine_drop (by omega), List.length_drop]
    omega

theorem Relined.append (h : Relined e text ps ps')
    (h' : Relined e (text.drop (total ps)) qs qs') : Relined e text (ps ++ qs) (ps' ++ qs') := by
  induction h with
  | nil => exact h'
  | @same text p ps ps' hp later ih =>
    rw [total_cons, ← List.drop_drop] at h'
    exact .same hp (ih h')
  | @skip rest ps ps' later ih =>
    rw [total_cons, ← List.drop_drop] at h'
    exact .skip (ih h')
  | @newline rest ps ps' later ih =>
    rw [total_cons, ← List.drop_drop] at h'
    exact .newline (ih h')

/-- A piece over a whole line, with the break behind it. -/
theorem Relined.line (he : IsLineEnd e) (h : '\r' ∉ text) {p : Piece}
    (hp : p.width = lineLength text)
    (later : Relined e
      (text.drop (lineLength text + breakLength (text.drop (lineLength text)))) ps ps') :
    Relined e text (p :: .skip (breakLength (text.drop (lineLength text))) :: ps)
      (p :: .skip (breakLength ((relined e text).drop (lineLength text))) :: ps') := by
  have hdrop : (relined e text).drop (lineLength text) = relined e (text.drop (lineLength text)) :=
    drop_relined (Nat.le_refl _)
  rw [hdrop]
  rw [← List.drop_drop] at later
  refine .same (hp ▸ Nat.le_refl _) ?_
  rw [hp]
  rcases drop_firstLine h with hend | ⟨rest, hend⟩
  · rw [length_firstLine] at hend
    rw [hend] at later ⊢
    exact .same (Nat.zero_le _) later
  · rw [length_firstLine] at hend
    rw [hend] at later ⊢
    rw [breakLength_relined he]
    exact .skip later

/-- What is read of the line alone is the same in both texts. -/
theorem Relined.scan {s : Scanner} {text' : List Char} (hline : firstLine text' = firstLine text)
    (h : StaysOnLine s text) (h' : StaysOnLine s text') : Relined e text (s text) (s text') := by
  rw [← h'.eq, hline, h.eq]
  exact .ofLine h.le

/-- Behind the pieces the new text is that with other line ends. -/
theorem Relined.drop (h : Relined e text ps ps') :
    (relined e text).drop (total ps') = relined e (text.drop (total ps)) := by
  induction h with
  | nil => rfl
  | same hp _ ih =>
    rw [total_cons, total_cons, ← List.drop_drop, ← List.drop_drop, drop_relined hp, ih]
  | skip _ ih | newline _ ih =>
    rw [total_cons, total_cons, ← List.drop_drop, ← List.drop_drop, relined_break]
    simp only [width, List.drop_left', List.drop_succ_cons, List.drop_zero, ih]

/-- One scanner, and another one behind it. -/
theorem Relined.andThen {first second : Scanner}
    (h : Relined e text (first text) (first (relined e text)))
    (h' : Relined e (text.drop (total (first text))) (second (text.drop (total (first text))))
      (second (relined e (text.drop (total (first text)))))) :
    Relined e text (Scanner.andThen first second text)
      (Scanner.andThen first second (relined e text)) := by
  unfold Scanner.andThen
  dsimp only
  rw [h.drop]
  exact h.append h'

/-- The new text behind a whole line and its break. -/
theorem drop_line_relined (he : IsLineEnd e) (h : '\r' ∉ text) :
    (relined e text).drop
        (lineLength text + breakLength ((relined e text).drop (lineLength text))) =
      relined e (text.drop (lineLength text + breakLength (text.drop (lineLength text)))) :=
  (Relined.line he h (p := .skip (lineLength text)) rfl (.nil _)).drop

end Piece

/-- The next character that counts, as far as it is on the line. -/
theorem nextSignificant?_firstLine (text : List Char) :
    nextSignificant? (firstLine text) =
      (nextSignificant? text).filter fun c => !isLineBreak c := by
  unfold nextSignificant?
  induction text with
  | nil => rfl
  | cons c rest ih =>
    cases hc : isLineBreak c with
    | true =>
      have hspace : isInlineSpace c = false := by
        rcases eq_of_isLineBreak hc with rfl | rfl <;> rfl
      rw [firstLine_break hc]
      simp [hspace, hc, Option.filter]
    | false =>
      rw [firstLine_cons hc]
      cases hspace : isInlineSpace c with
      | true => simpa [hspace] using ih
      | false => simp [hspace, hc, Option.filter]

theorem restIsBlank_firstLine (text : List Char) :
    restIsBlank (firstLine text) = restIsBlank text := by
  unfold restIsBlank
  rw [nextSignificant?_firstLine]
  cases nextSignificant? text with
  | none => rfl
  | some c => cases hc : isLineBreak c <;> simp [hc, Option.filter]

theorem captures_firstLine (base : Nat) (text : List Char) :
    captures base (firstLine text) = captures base text := by
  have hnext := nextSignificant?_firstLine text
  unfold nextSignificant? at hnext
  unfold captures
  rw [onLine_blankLength.eq, hnext]
  cases (text.dropWhile isInlineSpace).head? with
  | none => rfl
  | some c => cases hc : isLineBreak c <;> simp [hc, Option.filter]

/-- The captured lines are the same lines. -/
theorem capturedLines_relined (he : IsLineEnd e) (content : TokenKind) (base : Nat)
    (hr : '\r' ∉ text) :
    Piece.Relined e text (capturedLines content base text.length text)
      (capturedLines content base (relined e text).length (relined e text)) := by
  induction text using line_induction with
  | nil => exact .nil []
  | line text hne ih =>
    have hcaptures : captures base (relined e text) = captures base text := by
      rw [← captures_firstLine, firstLine_relined he hr, captures_firstLine]
    cases hcaptured : captures base text with
    | false =>
      rw [hcaptured] at hcaptures
      rw [capturedLines_of_stop (.inr hcaptured), capturedLines_of_stop (.inr hcaptures)]
      exact .nil text
    | true =>
      rw [hcaptured] at hcaptures
      rw [capturedLines_of_captures hne hcaptured,
        capturedLines_of_captures ((relined_eq_nil he).not.mpr hne) hcaptures,
        lineLength_relined he hr, Piece.drop_line_relined he hr]
      exact .line he hr rfl (ih fun hmem => hr (List.mem_of_mem_drop hmem))

/-- The block under a marker, whatever stands behind the marker on its line. -/
theorem capturedBlock_relined (he : IsLineEnd e) (content : TokenKind) (base : Nat)
    (hr : '\r' ∉ text) :
    Piece.Relined e text (capturedBlock content base text)
      (capturedBlock content base (relined e text)) := by
  have hblank : restIsBlank (relined e text) = restIsBlank text := by
    rw [← restIsBlank_firstLine, firstLine_relined he hr, restIsBlank_firstLine]
  have hr' : '\r' ∉ text.drop (lineLength text + breakLength (text.drop (lineLength text))) :=
    fun hmem => hr (List.mem_of_mem_drop hmem)
  have hlines := capturedLines_relined he content base hr'
  unfold capturedBlock
  dsimp only
  rw [hblank, lineLength_relined he hr, Piece.drop_line_relined he hr]
  refine .append (.ofLine ?_) ?_
  · split_ifs <;> exact Nat.zero_le _
  · have htotal : Piece.total (if restIsBlank text then []
        else [.fault .textAfterBlockMarker (lineLength text)]) = 0 := by split_ifs <;> rfl
    rw [htotal]
    exact .line he hr rfl hlines

end AgentScript
