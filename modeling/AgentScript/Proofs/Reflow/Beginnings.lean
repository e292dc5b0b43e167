import AgentScript.Proofs.Reading.BlockReadings
import AgentScript.Proofs.Reading.Brackets
import AgentScript.Proofs.Reflow.Rounds

/-!
# Where tokens of lines begin

A token that a scanner finds in a line has a character at least, and a captured line is one of the
lines below, so every token of a line begins before the end of the text. Only layout tokens stand at
the end.
-/
namespace AgentScript

open CharClass Lexeme

variable {text rest : List Char} {c : Char} {l : Layout}

namespace Piece

/-- A token has a character at least. -/
def isWide : Piece → Bool
  | .token _ n => 0 < n
  | _ => true

end Piece

open Piece

namespace Lexeme

/-- The scanner gives wide pieces on any text. -/
def Wide (s : Scanner) : Prop := ∀ text, ∀ p ∈ s text, p.isWide = true

theorem Wide.andThen {first second : Scanner} (h : Wide first) (h' : Wide second) :
    Wide (Scanner.andThen first second) := by
  intro text p hp
  rcases List.mem_append.mp hp with hp | hp
  · exact h text p hp
  · exact h' _ p hp

theorem Wide.sequence {scanners : List Scanner} (h : ∀ s ∈ scanners, Wide s) :
    Wide (Scanner.sequence scanners) := by
  induction scanners with
  | nil => exact fun _ _ hp => nomatch hp
  | cons s rest ih =>
    obtain ⟨hs, hrest⟩ := List.forall_mem_cons.mp h
    exact hs.andThen (ih hrest)

theorem wide_skipping (length : List Char → Nat) : Wide (Scanner.skipping length) :=
  fun _ => by simp [Scanner.skipping, isWide]

theorem wide_single (kind : TokenKind) {n : Nat} (hn : 0 < n) : Wide fun _ => [.token kind n] :=
  fun _ => by simpa [isWide] using hn

theorem wide_tokenOf (kind : TokenKind) (length : List Char → Nat) :
    Wide (Scanner.tokenOf kind length) := by
  intro text
  unfold Scanner.tokenOf
  split_ifs with hn
  · exact nofun
  · simpa [isWide] using Nat.pos_of_ne_zero hn

theorem wide_quotedString : Wide quotedString := by
  intro text
  have hpos : 0 < (stringExtent text).length := Nat.succ_pos _
  unfold quotedString
  dsimp only
  split_ifs
  · simpa [isWide] using hpos
  · simp [isWide]

theorem wide_tagText (kind : TokenKind) (isDelimiter : Char → Bool) :
    Wide (tagText kind isDelimiter) := by
  intro text
  unfold tagText
  dsimp only
  split_ifs with hn
  · simp [isWide]
  · simpa [isWide] using Nat.pos_of_ne_zero hn

theorem wide_tagModifier : Wide tagModifier := by
  intro text
  unfold tagModifier
  split
  · refine Wide.sequence ?_ _
    simp only [List.forall_mem_cons]
    exact ⟨wide_single _ Nat.one_pos, wide_skipping _, wide_tagText _ _, List.forall_mem_nil _⟩
  · exact List.forall_mem_nil _

theorem wide_openTag (mode : Mode) : Wide (openTag mode) := by
  refine Wide.sequence ?_
  simp only [List.forall_mem_cons]
  exact ⟨wide_single _ Nat.one_pos, wide_skipping _, fun text => wide_tokenOf _ _ text,
    wide_skipping _, wide_tagText _ _, wide_tagModifier, List.forall_mem_nil _⟩

theorem wide_typeTag (mode : Mode) : Wide (typeTag mode) := by
  intro text
  unfold typeTag
  dsimp only
  split
  · exact List.forall_mem_append.mpr ⟨wide_openTag mode text, wide_single _ Nat.one_pos []⟩
  · exact List.forall_mem_cons.mpr ⟨rfl, wide_openTag mode text⟩

theorem wide_marker (form : MarkerForm) : Wide (marker form) := by
  intro text
  have hpos : 0 < markerLength text := by
    unfold markerLength
    omega
  unfold marker
  dsimp only
  split_ifs <;> simpa [isWide] using hpos

theorem wide_inlineCode (base : Nat) : Wide (embedded .inline base) :=
  (wide_marker .inline).andThen ((wide_skipping _).andThen (wide_tokenOf _ _))

end Lexeme

namespace Round

/-- All tokens of the round have characters, unless the text begins with the marker of a block. -/
def WideBesideBlocks (text : List Char) (r : Round) : Prop :=
  (∀ k n, ¬BeginsWithMarker text k n) → ∀ p ∈ r.pieces, p.isWide = true

theorem wide_single_round {kind : TokenKind} {n : Nat} (hn : 0 < n) :
    ∀ p ∈ (single l kind n).pieces, p.isWide = true := by
  simpa [single, isWide] using hn

theorem wide_unexpected (l : Layout) (c : Char) :
    ∀ p ∈ (unexpected l c).pieces, p.isWide = true := by
  simp [unexpected, isWide]

theorem wide_colon (l : Layout) (previous : Option Char) (text : List Char) :
    ∀ p ∈ (colon l previous text).pieces, p.isWide = true := by
  unfold colon
  split_ifs
  · exact wide_single_round (by omega)
  · simp [isWide]

theorem wide_dash (l : Layout) (rest : List Char) :
    ∀ p ∈ (dash l ('-' :: rest)).pieces, p.isWide = true := by
  unfold dash
  split
  · exact wide_single_round Nat.one_pos
  · exact wide_single_round Nat.two_pos
  · split_ifs
    · exact wide_single _ (numberLength_pos_of_minus rest) []
    · exact wide_single_round Nat.one_pos
    · exact wide_unexpected l '-'

theorem wide_properWord (l : Layout) (c : Char) (rest : List Char) :
    ∀ p ∈ (properWord l (c :: rest)).pieces, p.isWide = true := by
  obtain ⟨kind, n, heq, -, hpos⟩ := exists_single_properWord l (c :: rest)
  rw [heq]
  exact wide_single_round (hpos (List.cons_ne_nil c rest))

theorem wide_closeBracket (l : Layout) (b : Bracket) :
    ∀ p ∈ (closeBracket l b).pieces, p.isWide = true := by
  unfold closeBracket
  dsimp only
  split
  · simp [isWide]
  · split_ifs <;> simp [isWide]

theorem wide_bar (l : Layout) (c : Char) (text : List Char) :
    WideBesideBlocks text (bar l c text) := by
  intro hno
  unfold bar
  split
  · exact wide_unexpected l c
  · next hmarker =>
    split_ifs with halone
    · exact absurd (.multiline hmarker halone) (hno _ _)
    · exact wide_single_round Nat.one_pos
    · exact wide_unexpected l c

theorem wide_embeddedCode (l : Layout) (rest : List Char) :
    WideBesideBlocks ('$' :: rest) (embeddedCode l ('$' :: rest)) := by
  intro hno
  unfold embeddedCode
  split
  · simp [isWide]
  · exact wide_inlineCode l.lineWidth _
  · next hform => exact absurd (.code rfl hform) (hno _ _)

theorem wide_within (hc : isLineBreak c = false) (previous : Option Char) (p : Position) :
    WideBesideBlocks (c :: rest) (within l previous p c (c :: rest)) := by
  refine within_cases (motive := WideBesideBlocks (c :: rest)) l previous p c (c :: rest) ?space
    ?lineBreak ?comment ?string ?tag ?code ?bar ?colon ?dash ?opening ?closing ?mark ?number ?proper
    ?word ?other
  case space => exact fun _ _ => by simp [isWide]
  case lineBreak => exact fun hbreak => nomatch hc.symm.trans hbreak
  case comment => exact fun _ _ => by simp [isWide]
  case string => exact fun _ _ => wide_quotedString _
  case tag =>
    intro _ _
    dsimp only
    exact wide_typeTag _ _
  case code =>
    rintro rfl
    exact wide_embeddedCode l rest
  case bar => exact wide_bar l c _
  case colon => exact fun _ _ => wide_colon l previous _
  case dash =>
    rintro rfl _
    exact wide_dash l rest
  case opening => exact fun b _ _ => wide_single _ Nat.one_pos []
  case closing => exact fun b _ _ => wide_closeBracket l b
  case mark => exact fun _ _ _ => wide_single_round Nat.one_pos
  case number => exact fun hdigit _ => wide_single _ (numberLength_pos_of_digit hdigit rest) []
  case proper => exact fun _ _ => wide_properWord l c rest
  case word =>
    intro hword _
    have hchar : isWordChar c = true := by
      rcases hword with hlower | rfl
      · exact isWordChar_of_isAlphabetic (isAlphabetic_of_isLowercase hlower)
      · rfl
    exact wide_single _ (wordLength_pos hchar rest) []
  case other => exact fun _ => wide_unexpected l c

end Round

/-- The token begins before the end of the text. -/
def Token.BeginsIn (text : List Char) (t : Token) : Prop := t.start.offset < text.length

namespace Cursor

variable {cursor : Cursor} {ps : List Piece}

theorem Along.beginsIn (h : cursor.Along text) (hne : cursor.rest ≠ []) :
    cursor.position.offset < text.length := by
  have hlength := h.offset_add_length
  have hpos := List.length_pos_iff.mpr hne
  omega

theorem beginsIn_of_wide (h : cursor.Along text) (hwide : ∀ p ∈ ps, p.isWide = true)
    (hfits : total ps ≤ cursor.rest.length) : ∀ t ∈ cursor.tokens ps, t.BeginsIn text := by
  induction ps generalizing cursor with
  | nil => exact nofun
  | cons p ps ih =>
    obtain ⟨hp, hps⟩ := List.forall_mem_cons.mp hwide
    rw [total_cons] at hfits
    have hrest (n : Nat) (hn : n + total ps ≤ cursor.rest.length) :
        total ps ≤ (cursor.advance n).rest.length := by
      rw [advance_rest, List.length_drop]
      omega
    cases p with
    | skip n => exact ih (h.advance n) hps (hrest n hfits)
    | fault cause n => exact ih h hps (Nat.zero_add (total ps) ▸ hfits)
    | token kind n =>
      refine List.forall_mem_cons.mpr ⟨h.beginsIn ?_, ih (h.advance n) hps (hrest n hfits)⟩
      have hn : 0 < n := by simpa [isWide] using hp
      refine List.length_pos_iff.mp (Nat.lt_of_lt_of_le hn ?_)
      exact (Nat.le_add_right n (total ps)).trans hfits

/-- Each captured line is a line of the text. -/
theorem beginsIn_capturedLines (h : cursor.Along text) (content : TokenKind) (base fuel : Nat) :
    ∀ t ∈ cursor.tokens (capturedLines content base fuel cursor.rest), t.BeginsIn text := by
  induction fuel generalizing cursor with
  | zero => exact List.forall_mem_nil _
  | succ fuel ih =>
    unfold capturedLines
    dsimp only
    split_ifs with hstop
    · exact List.forall_mem_nil _
    have hne : cursor.rest ≠ [] := by
      rintro hnil
      simp [hnil] at hstop
    generalize lineLength cursor.rest = n
    generalize breakLength (cursor.rest.drop n) = b
    refine List.forall_mem_cons.mpr ⟨h.beginsIn hne, ?_⟩
    have hbelow := ih ((h.advance n).advance b)
    rwa [advance_rest, advance_rest, List.drop_drop] at hbelow

theorem beginsIn_capturedBlock (h : cursor.Along text) (content : TokenKind) (base : Nat) :
    ∀ t ∈ cursor.tokens (capturedBlock content base cursor.rest), t.BeginsIn text := by
  have hlines (n b : Nat) : ∀ t ∈ ((cursor.advance n).advance b).tokens (capturedLines content base
      (cursor.rest.drop (n + b)).length (cursor.rest.drop (n + b))), t.BeginsIn text := by
    have hbelow := beginsIn_capturedLines ((h.advance n).advance b) content base
      (cursor.rest.drop (n + b)).length
    rwa [advance_rest, advance_rest, List.drop_drop] at hbelow
  unfold capturedBlock
  dsimp only
  split_ifs
  · exact hlines _ _
  · exact hlines _ _

end Cursor

namespace Round

theorem isStructural_beginLine (l : Layout) (text : List Char) :
    ∀ k ∈ kinds (beginLine l text).pieces, k.isStructural = true := by
  refine beginLine_cases (motive := fun r => ∀ k ∈ kinds r.pieces, k.isStructural = true) l text
    (fun _ => nofun) fun _ => ?_
  · dsimp only
    unfold indentation
    split_ifs <;> simp +contextual [kinds, TokenKind.isStructural]

theorem isStructural_endLine (l : Layout) (n : Nat) :
    ∀ k ∈ kinds (endLine l n).pieces, k.isStructural = true := by
  unfold endLine
  split_ifs <;> simp [kinds, TokenKind.isStructural]

variable {cursor : Cursor}

theorem beginsIn_markerRound (h : cursor.Along text) (hl : l.beginsLine = false) {k : TokenKind}
    {n : Nat} (hmarker : BeginsWithMarker cursor.rest k n) :
    ∀ t ∈ cursor.tokens (next l cursor).pieces, t.isStructural = false → t.BeginsIn text := by
  obtain ⟨content, hcontent⟩ : ∃ content, k.captures? = some content := by
    cases hmarker with
    | multiline => exact ⟨_, rfl⟩
    | code => exact ⟨_, rfl⟩
  obtain ⟨faults, hfaults, hnext⟩ := hmarker.next_eq hl hcontent
  obtain ⟨hno, hnone⟩ := tokens_of_faults hfaults cursor
  obtain ⟨x, rest, hrest, -⟩ := hmarker.exists_cons
  have hblock := Cursor.beginsIn_capturedBlock (h.advance n) content l.lineWidth
  rw [Cursor.advance_rest] at hblock
  intro t ht hword
  rw [hnext, thenEndLine, List.append_assoc, Cursor.tokens_append, hno, hnone] at ht
  rcases List.mem_cons.mp ht with rfl | ht
  · exact h.beginsIn (by simp [hrest])
  change t ∈ (cursor.advance n).tokens
    (capturedBlock content l.lineWidth (cursor.rest.drop n) ++ (endLine l 0).pieces) at ht
  rw [Cursor.tokens_append] at ht
  rcases List.mem_append.mp ht with ht | ht
  · exact hblock t ht
  · have hkind := List.mem_map_of_mem (f := Token.kind) ht
    rw [kinds_tokens] at hkind
    cases hword.symm.trans (isStructural_endLine l 0 _ hkind)

/-- The tokens of lines that a round reads begin before the end of the text. -/
theorem beginsIn_next (h : cursor.Along text) (l : Layout) :
    ∀ t ∈ cursor.tokens (next l cursor).pieces, t.isStructural = false → t.BeginsIn text := by
  have hlayout {r : Round} (hr : ∀ k ∈ kinds r.pieces, k.isStructural = true) :
      ∀ t ∈ cursor.tokens r.pieces, t.isStructural = false → t.BeginsIn text := by
    intro t ht hword
    have hkind := List.mem_map_of_mem (f := Token.kind) ht
    rw [kinds_tokens] at hkind
    exact nomatch hword.symm.trans (hr _ hkind)
  cases hrest : cursor.rest with
  | nil =>
    refine hlayout ?_
    simp [next, hrest, kinds]
  | cons c rest =>
  cases hl : l.beginsLine with
  | true =>
    refine hlayout ?_
    rw [next_beginsLine hl (by simp [hrest])]
    exact isStructural_beginLine l _
  | false =>
  cases hc : isLineBreak c with
  | true =>
    refine hlayout ?_
    rw [next_within hl hrest, within_break hc]
    exact isStructural_endLine l _
  | false =>
  by_cases hblock : ∃ k n, BeginsWithMarker cursor.rest k n
  · obtain ⟨k, n, hmarker⟩ := hblock
    exact beginsIn_markerRound h hl hmarker
  · rw [hrest] at hblock
    have hno (k : TokenKind) (n : Nat) : ¬BeginsWithMarker (c :: rest) k n :=
      fun hmarker => hblock ⟨k, n, hmarker⟩
    have hline := (oneOnLine_within hc hno l cursor.previous cursor.position).le
    rw [next_within hl hrest]
    refine fun t ht _ => Cursor.beginsIn_of_wide h (wide_within hc _ _ hno) ?_ t ht
    rw [hrest]
    exact hline.trans (Lexeme.spanLength_le _ _)

end Round

namespace Reading

variable {r : Reading}

/-- While a bracket is open, the last token stands in a line, and all tokens begin before the end of
the text. -/
def OpenLine (text : List Char) (r : Reading) : Prop :=
  r.layout.brackets ≠ [] →
    r.transcript.endsInLine = true ∧ ∀ t ∈ r.transcript.tokens.toList, t.BeginsIn text

/-- A round behind which a bracket is open reads no layout token. -/
theorem isStructural_of_openBracket (hrest : r.rest ≠ []) (hopen : r.round.layout.brackets ≠ []) :
    ∀ k ∈ Piece.kinds (Round.next r.layout r.transcript.cursor).pieces, k.isStructural = false := by
  have hform := Round.next_form r.layout hrest
  change (Round.next r.layout r.transcript.cursor).layout.brackets ≠ [] at hopen
  generalize Round.next r.layout r.transcript.cursor = next at hform hopen
  cases hform with
  | blank => exact nofun
  | indented begins =>
    have hclosed := (Bool.and_eq_true_iff.mp begins).2
    exact absurd (List.isEmpty_iff.mp hclosed) hopen
  | within inside modes brackets inLine => exact Piece.isStructural_of_mem_kinds inLine
  | ended inside closed => exact absurd closed hopen

theorem OpenLine.round (h : r.OpenLine text) (hfollows : r.transcript.Follows text)
    (hrest : r.rest ≠ []) : r.round.OpenLine text := by
  intro hopen
  have hinLine := isStructural_of_openBracket hrest hopen
  have hcount := (Round.countsBrackets_next r.layout r.transcript.cursor).stack
  have hkinds := r.kinds_round
  have htokens := r.tokens_round
  refine ⟨?_, fun t ht => ?_⟩
  · generalize hnew : Piece.kinds (Round.next r.layout r.transcript.cursor).pieces = new at *
    rw [Transcript.endsInLine_eq, hkinds]
    rcases List.eq_nil_or_concat new with rfl | ⟨before, last, rfl⟩
    · have hopen : r.layout.brackets ≠ [] := by
        change r.round.layout.openBrackets = r.layout.openBrackets at hcount
        intro hnil
        refine hopen (List.map_eq_nil_iff.mp (hcount.trans ?_))
        rw [Layout.openBrackets, hnil]
        rfl
      rw [List.append_nil, ← Transcript.endsInLine_eq]
      exact (h hopen).1
    · have hlast := hinLine last (by simp)
      simp [hlast]
  · rw [htokens] at ht
    rcases List.mem_append.mp ht with ht | ht
    · have hstart := ((hfollows.reads t ht).ordered.trans (hfollows.passed t ht)).2
      exact Nat.lt_of_le_of_lt hstart (hfollows.along.beginsIn hrest)
    · refine Round.beginsIn_next hfollows.along r.layout t ht (hinLine _ ?_)
      rw [← Piece.kinds_tokens r.transcript.cursor]
      exact List.mem_map_of_mem ht

end Reading

end AgentScript
