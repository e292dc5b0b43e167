import AgentScript.Proofs.Reading.RoundForm
import Mathlib.Data.List.TakeWhile

/-!
# What scanners skip

Between tokens only blanks, comments and text under a reported fault are skipped. Each
scanner is checked by itself; the check composes along the pieces of a round.
-/
namespace AgentScript

open CharClass Lexeme

/-- Whitespace, and possibly a comment that reaches to the end of the run. -/
def IsBlankRun (run : List Char) : Prop :=
  ∃ spaces comment, run = spaces ++ comment ∧ (∀ c ∈ spaces, isWhitespace c = true) ∧
    (comment = [] ∨ comment.head? = some '#') ∧ ∀ c ∈ comment, isLineBreak c = false

theorem isWhitespace_of_isInlineSpace {c : Char} (h : isInlineSpace c = true) :
    isWhitespace c = true := by
  have hc : c = ' ' ∨ c = '\t' := by simpa [isInlineSpace] using h
  rcases hc with rfl | rfl <;> decide

theorem isLineBreak_of_isInlineSpace {c : Char} (h : isInlineSpace c = true) :
    isLineBreak c = false := by
  have hc : c = ' ' ∨ c = '\t' := by simpa [isInlineSpace] using h
  rcases hc with rfl | rfl <;> decide

theorem isBlankRun_of_whitespace {run : List Char} (h : ∀ c ∈ run, isWhitespace c = true) :
    IsBlankRun run :=
  ⟨run, [], (List.append_nil run).symm, h, .inl rfl, by simp⟩

theorem isBlankRun_nil : IsBlankRun [] := isBlankRun_of_whitespace (by simp)

theorem isWhitespace_of_mem_take_blankLength {text : List Char} :
    ∀ c ∈ text.take (blankLength text), isWhitespace c = true := by
  intro c hc
  unfold blankLength at hc
  rw [take_spanLength] at hc
  exact isWhitespace_of_isInlineSpace (List.mem_takeWhile_imp hc)

theorem isBlankRun_blanks (text : List Char) : IsBlankRun (text.take (blankLength text)) :=
  isBlankRun_of_whitespace isWhitespace_of_mem_take_blankLength

theorem isBlankRun_lineBreak (text : List Char) : IsBlankRun (text.take (breakLength text)) :=
  isBlankRun_of_whitespace isWhitespace_of_mem_take_breakLength

/-- A line on which nothing but blanks and a comment is left is a blank run. -/
theorem isBlankRun_line {text : List Char} (h : restIsBlank text = true) :
    IsBlankRun (text.take (lineLength text)) := by
  unfold lineLength
  rw [take_spanLength]
  have hsplit : (text.takeWhile fun c => !isLineBreak c) =
      text.takeWhile isInlineSpace ++
        (text.dropWhile isInlineSpace).takeWhile fun c => !isLineBreak c := by
    conv_lhs => rw [← List.takeWhile_append_dropWhile (p := isInlineSpace) (l := text)]
    rw [List.takeWhile_append_of_pos]
    intro c hc
    rw [isLineBreak_of_isInlineSpace (List.mem_takeWhile_imp hc)]
    rfl
  refine ⟨_, _, hsplit, fun c hc => isWhitespace_of_isInlineSpace (List.mem_takeWhile_imp hc), ?_,
    fun c hc => by simpa using List.mem_takeWhile_imp hc⟩
  unfold restIsBlank nextSignificant? at h
  cases hrest : text.dropWhile isInlineSpace with
  | nil => exact .inl rfl
  | cons c rest =>
    rw [hrest] at h
    cases hbreak : isLineBreak c with
    | true => exact .inl (by simp [hbreak])
    | false =>
      have hc : c = '#' := by simpa [hbreak] using h
      subst hc
      exact .inr (by simp [isLineBreak])

namespace Piece

/-- Every skip is a blank run or lies within the next `reach` characters, which a fault
concerns. -/
def Justified : Nat → List Piece → List Char → Prop
  | _, [], _ => True
  | reach, .skip n :: ps, text =>
    (n ≤ reach ∨ IsBlankRun (text.take n)) ∧ Justified (reach - n) ps (text.drop n)
  | reach, .token _ n :: ps, text => Justified (reach - n) ps (text.drop n)
  | reach, .fault _ n :: ps, text => Justified (max reach n) ps text

theorem Justified.mono {ps : List Piece} {text : List Char} {reach reach' : Nat}
    (h : Justified reach ps text) (hle : reach ≤ reach') : Justified reach' ps text := by
  induction ps generalizing reach reach' text with
  | nil => trivial
  | cons p ps ih =>
    cases p with
    | skip n => exact ⟨h.1.imp_left fun hn => by omega, ih h.2 (by omega)⟩
    | token kind n => exact ih h (by omega)
    | fault cause n => exact ih h (by omega)

theorem Justified.append {ps qs : List Piece} {text : List Char} {reach : Nat}
    (h : Justified reach ps text) (h' : Justified 0 qs (text.drop (total ps))) :
    Justified reach (ps ++ qs) text := by
  induction ps generalizing reach text with
  | nil => exact h'.mono (Nat.zero_le _)
  | cons p ps ih =>
    rw [total_cons, ← List.drop_drop] at h'
    cases p with
    | skip n => exact ⟨h.1, ih h.2 h'⟩
    | token kind n => exact ih h h'
    | fault cause n => exact ih h h'

theorem Justified.afterSkip {n : Nat} {ps : List Piece} {text : List Char}
    (h : IsBlankRun (text.take n)) (h' : Justified 0 ps (text.drop n)) :
    Justified 0 (.skip n :: ps) text := ⟨.inr h, h'.mono (Nat.zero_le _)⟩

theorem Justified.afterToken {n : Nat} {ps : List Piece} {text : List Char}
    (h : Justified 0 ps (text.drop n)) (kind : TokenKind) :
    Justified 0 (.token kind n :: ps) text := h.mono (Nat.zero_le _)

theorem justified_skip {n : Nat} {text : List Char} (h : IsBlankRun (text.take n)) :
    Justified 0 [.skip n] text := ⟨.inr h, trivial⟩

theorem justified_fault (cause : LexicalCause) (n : Nat) (text : List Char) :
    Justified 0 [.fault cause n, .skip n] text :=
  ⟨.inl (Nat.le_max_right 0 n), trivial⟩

theorem justified_tokens {ps : List Piece} (h : ∀ p ∈ ps, ∃ kind n, p = .token kind n)
    (text : List Char) : Justified 0 ps text := by
  induction ps generalizing text with
  | nil => trivial
  | cons p ps ih =>
    obtain ⟨kind, n, rfl⟩ := h p (List.mem_cons_self ..)
    exact (ih (fun q hq => h q (List.mem_cons_of_mem _ hq)) (text.drop n)).mono (Nat.zero_le _)

end Piece

open Piece

namespace Lexeme

/-- The scanner skips nothing without reason. -/
def SkipsBlanks (s : Scanner) : Prop := ∀ text, Justified 0 (s text) text

theorem SkipsBlanks.andThen {first second : Scanner} (h : SkipsBlanks first)
    (h' : SkipsBlanks second) : SkipsBlanks (Scanner.andThen first second) :=
  fun text => (h text).append (h' _)

theorem SkipsBlanks.sequence {scanners : List Scanner} (h : ∀ s ∈ scanners, SkipsBlanks s) :
    SkipsBlanks (Scanner.sequence scanners) := by
  induction scanners with
  | nil => exact fun _ => trivial
  | cons s rest ih =>
    exact (h s (List.mem_cons_self ..)).andThen (ih fun t ht => h t (List.mem_cons_of_mem _ ht))

theorem skipsBlanks_single (kind : TokenKind) (length : List Char → Nat) :
    SkipsBlanks fun text => [.token kind (length text)] :=
  fun text => justified_tokens (by simp) text

theorem skipsBlanks_tokenOf (kind : TokenKind) (length : List Char → Nat) :
    SkipsBlanks (Scanner.tokenOf kind length) := by
  intro text
  unfold Scanner.tokenOf
  split_ifs
  · trivial
  · exact skipsBlanks_single kind length text

theorem skipsBlanks_blanks : SkipsBlanks (Scanner.skipping blankLength) :=
  fun text => justified_skip (isBlankRun_blanks text)

theorem skipsBlanks_quotedString : SkipsBlanks quotedString := by
  intro text
  simp only [quotedString]
  split_ifs
  · trivial
  · exact justified_fault _ _ text

theorem dropWhile_reverse_append (p : Char → Bool) (text : List Char) :
    ∃ tail, text = (text.reverse.dropWhile p).reverse ++ tail ∧ ∀ c ∈ tail, p c = true := by
  refine ⟨(text.reverse.takeWhile p).reverse, ?_, fun c hc => ?_⟩
  · rw [← List.reverse_append, List.takeWhile_append_dropWhile, List.reverse_reverse]
  · exact List.mem_takeWhile_imp (List.mem_reverse.mp hc)

/-- What trimming cuts off is whitespace. -/
theorem isWhitespace_of_mem_drop_trimmedLength {text : List Char} {c : Char}
    (h : c ∈ text.drop (trimmedLength text)) : isWhitespace c = true := by
  obtain ⟨tail, htext, htail⟩ := dropWhile_reverse_append isWhitespace text
  have hlen : (text.reverse.dropWhile isWhitespace).reverse.length = trimmedLength text :=
    List.length_reverse
  have hdrop : ((text.reverse.dropWhile isWhitespace).reverse ++ tail).drop (trimmedLength text) =
      tail := List.drop_left' hlen
  rw [← htext] at hdrop
  exact htail c (hdrop ▸ h)

theorem isBlankRun_trimmed (p : Char → Bool) (text : List Char) :
    IsBlankRun ((text.drop (trimmedLength (text.takeWhile p))).take
      ((text.takeWhile p).length - trimmedLength (text.takeWhile p))) := by
  refine isBlankRun_of_whitespace fun c hc => ?_
  rw [← List.drop_take] at hc
  have hraw : text.take (text.takeWhile p).length = text.takeWhile p := take_spanLength p text
  rw [hraw] at hc
  exact isWhitespace_of_mem_drop_trimmedLength hc

theorem skipsBlanks_tagText (kind : TokenKind) (isDelimiter : Char → Bool) :
    SkipsBlanks (tagText kind isDelimiter) := by
  intro text
  have hblank := isBlankRun_trimmed (fun c => !isDelimiter c) text
  simp only [tagText]
  split_ifs with hn
  · rw [hn] at hblank ⊢
    exact justified_skip hblank
  · exact (justified_skip hblank).afterToken kind

theorem skipsBlanks_tagModifier : SkipsBlanks tagModifier := by
  intro text
  unfold tagModifier
  split
  · refine SkipsBlanks.sequence ?_ _
    simp only [List.mem_cons, List.not_mem_nil, or_false]
    rintro s (rfl | rfl | rfl)
    · exact skipsBlanks_single _ _
    · exact skipsBlanks_blanks
    · exact skipsBlanks_tagText _ _
  · trivial

theorem skipsBlanks_typeName (mode : Mode) : SkipsBlanks (typeName mode) :=
  fun text => skipsBlanks_tokenOf _ _ text

theorem skipsBlanks_openTag (mode : Mode) : SkipsBlanks (openTag mode) := by
  refine SkipsBlanks.sequence ?_
  simp only [List.mem_cons, List.not_mem_nil, or_false]
  rintro s (rfl | rfl | rfl | rfl | rfl | rfl)
  · exact skipsBlanks_single _ _
  · exact skipsBlanks_blanks
  · exact skipsBlanks_typeName mode
  · exact skipsBlanks_blanks
  · exact skipsBlanks_tagText _ _
  · exact skipsBlanks_tagModifier

theorem skipsBlanks_typeTag (mode : Mode) : SkipsBlanks (typeTag mode) := by
  intro text
  have hopen := skipsBlanks_openTag mode text
  simp only [typeTag]
  split
  · exact hopen.append trivial
  · exact hopen.mono (Nat.zero_le _)

/-- The line break after a line can be skipped before any pieces that are justified. -/
theorem justified_breakSkip (text : List Char) {ps : List Piece}
    (h : Justified 0 ps (text.drop (lineLength text + breakLength (text.drop (lineLength text))))) :
    Justified 0 (.skip (breakLength (text.drop (lineLength text))) :: ps)
      (text.drop (lineLength text)) := by
  rw [← List.drop_drop] at h
  exact h.afterSkip (isBlankRun_lineBreak _)

theorem skipsBlanks_capturedLines (content : TokenKind) (base fuel : Nat) :
    SkipsBlanks (capturedLines content base fuel) := by
  induction fuel with
  | zero => exact fun _ => trivial
  | succ fuel ih =>
    intro text
    simp only [capturedLines]
    split_ifs
    · trivial
    · exact (justified_breakSkip text (ih _)).afterToken content

theorem skipsBlanks_capturedBlock (content : TokenKind) (base : Nat) :
    SkipsBlanks (capturedBlock content base) := by
  intro text
  have hlines := justified_breakSkip text (skipsBlanks_capturedLines content base
    (text.drop (lineLength text + breakLength (text.drop (lineLength text)))).length _)
  simp only [capturedBlock]
  split_ifs with hblank
  · exact hlines.afterSkip (isBlankRun_line hblank)
  · exact ⟨.inl (Nat.le_max_right ..), hlines.mono (Nat.zero_le _)⟩

theorem skipsBlanks_marker (form : MarkerForm) : SkipsBlanks (marker form) := by
  intro text
  simp only [marker]
  split_ifs
  · trivial
  · trivial

theorem skipsBlanks_embedded (form : MarkerForm) (base : Nat) :
    SkipsBlanks (embedded form base) := by
  refine (skipsBlanks_marker form).andThen ?_
  cases form
  · exact skipsBlanks_blanks.andThen (skipsBlanks_tokenOf _ _)
  · exact skipsBlanks_capturedBlock _ base

end Lexeme

namespace Round

open Lexeme

theorem justified_thenEndLine {pieces : List Piece} {text : List Char}
    (h : Justified 0 pieces text) (l : Layout) :
    Justified 0 (thenEndLine pieces l).pieces text := by
  simp only [thenEndLine, endLine]
  split_ifs
  · exact h.append trivial
  · exact h.append (justified_skip isBlankRun_nil)

theorem justified_indentation (r : Reindent) (text : List Char) :
    Justified 0 (indentation r (blankLength text)) text := by
  have hdedents (rest : List Char) :
      Justified 0 (List.replicate r.closes (.token .dedent 0)) rest :=
    justified_tokens (fun p hp => ⟨_, _, List.eq_of_mem_replicate hp⟩) rest
  have hskip := (hdedents _).afterSkip (isBlankRun_blanks text)
  unfold indentation
  split_ifs
  · trivial
  · exact hskip
  · exact hskip.mono (Nat.zero_le _)

theorem justified_bar (l : Layout) (c : Char) (text : List Char) :
    Justified 0 (bar l c text).pieces text := by
  unfold bar
  split
  · exact justified_fault _ _ _
  · split_ifs
    · exact justified_thenEndLine ((skipsBlanks_capturedBlock _ _ _).afterToken _) l
    · trivial
    · exact justified_fault _ _ _

theorem justified_embeddedCode (l : Layout) (text : List Char) :
    Justified 0 (embeddedCode l text).pieces text := by
  unfold embeddedCode
  split
  · exact justified_fault _ _ _
  · exact skipsBlanks_embedded .inline l.lineWidth text
  · exact justified_thenEndLine (skipsBlanks_embedded .block l.lineWidth text) l

theorem justified_dash (l : Layout) (text : List Char) :
    Justified 0 (dash l text).pieces text := by
  unfold dash
  split
  · trivial
  · trivial
  · split_ifs
    · trivial
    · trivial
    · exact justified_fault _ _ _

theorem justified_closeBracket (l : Layout) (b : Bracket) (text : List Char) :
    Justified 0 (closeBracket l b).pieces text := by
  simp only [closeBracket]
  split
  · trivial
  · split_ifs
    · trivial
    · trivial

theorem justified_within (l : Layout) (previous : Option Char) (p : Position) (c : Char)
    (rest : List Char) : Justified 0 (within l previous p c (c :: rest)).pieces (c :: rest) := by
  refine within_cases (motive := fun r => Justified 0 r.pieces (c :: rest)) l previous p c
    (c :: rest) ?space ?lineBreak ?comment ?string ?tag ?code ?bar ?colon ?dash ?opening ?closing
    ?mark ?number ?proper ?word ?other
  case space =>
    intro hc
    exact justified_skip
      (isBlankRun_of_whitespace (by simpa using isWhitespace_of_isInlineSpace hc))
  case lineBreak =>
    intro _
    unfold endLine
    split_ifs
    · trivial
    · exact justified_skip (isBlankRun_lineBreak _)
  case comment =>
    rintro rfl
    exact justified_skip (isBlankRun_line (by simp [restIsBlank, nextSignificant?, isInlineSpace]))
  case string => exact fun _ => skipsBlanks_quotedString _
  case tag =>
    intro _
    dsimp only
    exact skipsBlanks_typeTag _ _
  case code => exact fun _ => justified_embeddedCode l _
  case bar => exact justified_bar l c _
  case colon =>
    intro _
    unfold colon
    split_ifs
    · trivial
    · trivial
  case dash => exact fun _ => justified_dash l _
  case opening => exact fun _ _ => trivial
  case closing => exact fun b _ => justified_closeBracket l b _
  case mark => exact fun _ _ => trivial
  case number => exact fun _ => trivial
  case proper =>
    intro _
    obtain ⟨kind, n, heq, -, -⟩ := exists_single_properWord l (c :: rest)
    rw [heq]
    trivial
  case word => exact fun _ => trivial
  case other => exact justified_fault _ _ _

/-- No round skips text without reason. -/
theorem justified_next (l : Layout) (cursor : Cursor) :
    Justified 0 (next l cursor).pieces cursor.rest := by
  refine next_cases (motive := fun r => Justified 0 r.pieces cursor.rest) l cursor
    (fun _ => trivial) (fun _ => ?_) fun c rest hrest _ => ?_
  · exact beginLine_cases (motive := fun r => Justified 0 r.pieces cursor.rest) l cursor.rest
      (fun hb => ⟨.inr (isBlankRun_line hb), .inr (isBlankRun_lineBreak _), trivial⟩)
      fun _ => justified_indentation _ _
  · rw [hrest]
    exact justified_within l _ _ c rest

end Round

end AgentScript
