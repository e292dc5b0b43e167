import AgentScript.Proofs.Reading.CapturedBlocks

/-!
# Tokens with rounds of their own

Numbers, strings and type tags are read by rounds that read nothing else, before the characters
that they begin with. Between two rounds no type tag is open, so no other round reads the name of a
type.
-/
namespace AgentScript

open CharClass Lexeme

/-- A digit stands behind an optional minus sign. -/
def Lexeme.StartsNumber (text : List Char) : Prop :=
  (text.drop (minusLength text)).head?.any isDigit = true

namespace TokenKind

/-- The kinds of tokens that only a round for numbers, strings or type tags reads. -/
def hasOwnRound : TokenKind → Bool
  | number | string | lt | typeTagName => true
  | _ => false

theorem hasOwnRound_of_isWordlike {k : TokenKind} (h : k.isWordlike = true) :
    k.hasOwnRound = false := by
  cases k <;> simp_all [hasOwnRound, isWordlike]

end TokenKind

namespace Round

/-- Where the round on a text comes from: it is one for a number, a string or a type tag, or it
reads nothing of these. -/
inductive Origin (l : Layout) (text : List Char) : Round → Prop
  | number (starts : StartsNumber text) : Origin l text ⟨Lexeme.number text, l⟩
  | string {rest : List Char} (opens : text = '"' :: rest) : Origin l text ⟨quotedString text, l⟩
  | tag {rest : List Char} (opens : text = '<' :: rest) : Origin l text ⟨typeTag .typeTag text, l⟩
  | other {r : Round} (kinds : ∀ k ∈ Piece.kinds r.pieces, k.hasOwnRound = false) : Origin l text r

variable {l : Layout} {text : List Char}

theorem origin_single {kind : TokenKind} (h : kind.hasOwnRound = false) (n : Nat) :
    Origin l text (single l kind n) := .other (by simpa [single, Piece.kinds] using h)

theorem origin_unexpected (c : Char) : Origin l text (unexpected l c) :=
  .other (by simp [unexpected, Piece.kinds])

theorem hasOwnRound_endLine (l : Layout) (n : Nat) :
    ∀ k ∈ Piece.kinds (endLine l n).pieces, k.hasOwnRound = false := by
  unfold endLine
  split_ifs <;> simp [Piece.kinds, TokenKind.hasOwnRound]

theorem origin_thenEndLine {pieces : List Piece}
    (h : ∀ k ∈ Piece.kinds pieces, k.hasOwnRound = false) :
    Origin l text (thenEndLine pieces l) := by
  refine .other fun k hk => ?_
  simp only [thenEndLine, Piece.kinds_append, List.mem_append] at hk
  rcases hk with hk | hk
  · exact h k hk
  · exact hasOwnRound_endLine l 0 k hk

theorem hasOwnRound_capturedBlock {content : TokenKind} (h : content.hasOwnRound = false)
    (base : Nat) (text : List Char) :
    ∀ k ∈ Piece.kinds (capturedBlock content base text), k.hasOwnRound = false :=
  fun k hk => kinds_capturedBlock content base text k hk ▸ h

theorem origin_bar (c : Char) : Origin l text (bar l c text) := by
  unfold bar
  cases chompingMarker? text with
  | none => exact origin_unexpected c
  | some m =>
    obtain ⟨chomping, n⟩ := m
    dsimp only
    split_ifs
    · have hcontent : TokenKind.stringContent.hasOwnRound = false := rfl
      have hblock := hasOwnRound_capturedBlock hcontent l.lineWidth (text.drop n)
      exact origin_thenEndLine (List.forall_mem_cons.mpr ⟨rfl, hblock⟩)
    · exact origin_single rfl 1
    · exact origin_unexpected c

theorem origin_embeddedCode : Origin l text (embeddedCode l text) := by
  have hmarker (form : MarkerForm) :
      ∀ k ∈ Piece.kinds (marker form text), k.hasOwnRound = false := by
    unfold marker
    dsimp only
    split_ifs <;> cases form <;> simp [Piece.kinds, MarkerForm.kind, TokenKind.hasOwnRound]
  unfold embeddedCode
  cases markerForm? text with
  | none => exact .other (by simp [Piece.kinds])
  | some form =>
    cases form with
    | inline =>
      refine .other ?_
      simp only [embedded, Scanner.andThen, Piece.kinds_append, inlineCode, Scanner.skipping,
        Scanner.tokenOf]
      refine List.forall_mem_append.mpr ⟨hmarker .inline, ?_⟩
      split_ifs <;> simp [Piece.kinds, TokenKind.hasOwnRound]
    | block =>
      refine origin_thenEndLine ?_
      simp only [embedded, Scanner.andThen, Piece.kinds_append]
      exact List.forall_mem_append.mpr ⟨hmarker .block, hasOwnRound_capturedBlock rfl _ _⟩

theorem origin_dash {rest : List Char} : Origin l ('-' :: rest) (dash l ('-' :: rest)) := by
  unfold dash
  split
  · exact origin_single rfl 1
  · exact origin_single rfl 2
  · next d _ hd =>
    split_ifs with hdigit
    · refine .number ?_
      have hhead : rest.head? = some d := hd
      change rest.head?.any isDigit = true
      rw [hhead]
      exact hdigit
    · exact origin_single rfl 1
    · exact origin_unexpected '-'

/-- A digit begins a number without a sign. -/
theorem startsNumber_of_isDigit {c : Char} (h : isDigit c = true) (rest : List Char) :
    StartsNumber (c :: rest) := by
  have hnone : minusLength (c :: rest) = 0 := by
    unfold minusLength
    split
    · next heq =>
      cases heq
      exact absurd h (by decide)
    · rfl
  rw [StartsNumber, hnone]
  exact h

theorem origin_within (hl : l.modes.OutsideTags) (previous : Option Char) (p : Position) (c : Char)
    (rest : List Char) : Origin l (c :: rest) (within l previous p c (c :: rest)) := by
  refine within_cases l previous p c (c :: rest) ?space ?lineBreak ?comment ?string ?tag ?code ?bar
    ?colon ?dash ?opening ?closing ?mark ?number ?proper ?word ?other
  case space => exact fun _ => .other (by simp [Piece.kinds])
  case lineBreak => exact fun _ => .other (hasOwnRound_endLine l _)
  case comment => exact fun _ => .other (by simp [Piece.kinds])
  case string =>
    rintro rfl
    exact .string rfl
  case tag =>
    rintro rfl
    exact .tag rfl
  case code => exact fun _ => origin_embeddedCode
  case bar => exact origin_bar c
  case colon =>
    intro _
    unfold colon
    split_ifs
    · exact origin_single rfl _
    · exact .other (by simp [Piece.kinds, TokenKind.hasOwnRound])
  case dash =>
    rintro rfl
    exact origin_dash
  case opening =>
    exact fun b _ => .other (by simp [openBracket, Piece.kinds, TokenKind.hasOwnRound])
  case closing =>
    intro b _
    refine .other ?_
    unfold closeBracket
    dsimp only
    split
    · simp [Piece.kinds, TokenKind.hasOwnRound]
    · split_ifs <;> simp [Piece.kinds, TokenKind.hasOwnRound]
  case mark =>
    have hmark : ∀ kind ∈ [TokenKind.comma, .dot, .slash, .gt],
        kind.hasOwnRound = false := by
      decide
    exact fun kind hk => origin_single (hmark kind hk) 1
  case number => exact fun hc => .number (startsNumber_of_isDigit hc rest)
  case proper =>
    intro _
    obtain ⟨kind, n, heq, hkind, -⟩ := exists_single_properWord l (c :: rest)
    rw [heq]
    exact origin_single (TokenKind.hasOwnRound_of_isWordlike hkind) n
  case word =>
    have hword (w : String) := TokenKind.hasOwnRound_of_isWordlike
      (Mode.isWordlike_wordKind hl.prefersTypeNames w)
    exact fun _ => .other (by simpa [word, Piece.kinds] using hword _)
  case other => exact origin_unexpected c

theorem hasOwnRound_indentation (r : Reindent) (width : Nat) :
    ∀ k ∈ Piece.kinds (indentation r width), k.hasOwnRound = false := by
  unfold indentation
  split_ifs <;> simp +contextual [Piece.kinds, TokenKind.hasOwnRound]

/-- Where no type tag is open, only the rounds for numbers, strings and type tags read any. -/
theorem origin_next (hl : l.modes.OutsideTags) (c : Cursor) : Origin l c.rest (next l c) := by
  refine next_cases (motive := Origin l c.rest) l c (fun _ => .other (by simp [Piece.kinds]))
    (fun _ => ?_) fun x rest hrest _ => ?_
  · refine beginLine_cases l c.rest (fun _ => .other ?_) fun _ => .other ?_
    · simp [Piece.kinds]
    · exact hasOwnRound_indentation _ _
  · rw [hrest]
    exact origin_within hl _ _ x rest

namespace Origin

variable {r : Round}

theorem kinds_quotedString (text : List Char) :
    ∀ k ∈ Piece.kinds (quotedString text), k = .string := by
  unfold quotedString
  dsimp only
  split_ifs <;> simp [Piece.kinds]

/-- A round that reads a number reads the one that the text begins with, and nothing else. -/
theorem of_number_mem (h : Origin l text r) (hmem : .number ∈ Piece.kinds r.pieces) :
    StartsNumber text ∧ r.pieces = Lexeme.number text := by
  cases h with
  | number starts => exact ⟨starts, rfl⟩
  | string => exact nomatch kinds_quotedString _ _ hmem
  | tag =>
    dsimp only at hmem
    exact absurd (kinds_typeTag _ _ hmem) (by decide)
  | other kinds => exact nomatch kinds _ hmem

/-- A round that reads a string reads the one that the text begins with, and nothing else. -/
theorem of_string_mem (h : Origin l text r) (hmem : .string ∈ Piece.kinds r.pieces) :
    (∃ rest, text = '"' :: rest) ∧ r.pieces = quotedString text := by
  cases h with
  | number => exact nomatch List.mem_singleton.mp hmem
  | string opens => exact ⟨⟨_, opens⟩, rfl⟩
  | tag =>
    dsimp only at hmem
    exact absurd (kinds_typeTag _ _ hmem) (by decide)
  | other kinds => exact nomatch kinds _ hmem

end Origin

end Round

end AgentScript
