import AgentScript.Proofs.Reading.Scanners

/-!
# The forms of a round

A round either skips a blank line, reads the indentation of a logical line, reads pieces
within a line, or ends the line. Every fact about whole readings starts from these four
forms, so the dispatch over the characters of a line is opened here only.
-/
namespace AgentScript

namespace Round

open CharClass Lexeme

theorem ite_of_cases {motive : Round → Prop} {P : Prop} [Decidable P] {a b : Round}
    (ha : P → motive a) (hb : motive b) : motive (if P then a else b) := by
  by_cases h : P
  · rw [if_pos h]
    exact ha h
  · rw [if_neg h]
    exact hb

/-- Rounds that part on the same condition are related where their branches are. -/
theorem ite_related {R : Round → Round → Prop} {P : Prop} [Decidable P] {a b a' b' : Round}
    (ha : P → R a a') (hb : R b b') : R (if P then a else b) (if P then a' else b') := by
  by_cases h : P
  · rw [if_pos h, if_pos h]
    exact ha h
  · rw [if_neg h, if_neg h]
    exact hb

/-- Two rounds within a line that begin with the same character are related where they are for
every character that can begin a token or a blank. -/
theorem within_related {R : Round → Round → Prop} (l l' : Layout)
    (previous previous' : Option Char) (p p' : Position) (c : Char) (text text' : List Char)
    (space : isInlineSpace c = true → R ⟨[.skip 1], l⟩ ⟨[.skip 1], l'⟩)
    (lineBreak : isLineBreak c = true →
      R (endLine l (breakLength text)) (endLine l' (breakLength text')))
    (comment : c = '#' → R ⟨[.skip (lineLength text)], l⟩ ⟨[.skip (lineLength text')], l'⟩)
    (string : c = '"' → R ⟨quotedString text, l⟩ ⟨quotedString text', l'⟩)
    (tag : c = '<' → R ⟨typeTag (l.modes.push .typeTag).current text, l⟩
      ⟨typeTag (l'.modes.push .typeTag).current text', l'⟩)
    (code : c = '$' → R (embeddedCode l text) (embeddedCode l' text'))
    (bar : R (bar l c text) (bar l' c text'))
    (colon : c = ':' → R (colon l previous text) (colon l' previous' text'))
    (dash : c = '-' → R (dash l text) (dash l' text'))
    (opening : ∀ b, Bracket.ofOpener? c = some b → R (openBracket l b p) (openBracket l' b p'))
    (closing : ∀ b, Bracket.ofCloser? c = some b → R (closeBracket l b) (closeBracket l' b))
    (mark : ∀ kind ∈ [TokenKind.comma, .dot, .slash, .gt], R (single l kind 1) (single l' kind 1))
    (number : isDigit c = true → R ⟨number text, l⟩ ⟨number text', l'⟩)
    (proper : isUppercase c = true → R (properWord l text) (properWord l' text'))
    (word : isLowercase c = true ∨ c = '_' → R (word l text) (word l' text'))
    (other : R (unexpected l c) (unexpected l' c)) :
    R (within l previous p c text) (within l' previous' p' c text') := by
  unfold within
  refine ite_related space (ite_related lineBreak (ite_related comment (ite_related string
    (ite_related tag (ite_related code (ite_related (fun _ => bar) (ite_related colon
      (ite_related dash ?_))))))))
  cases hopen : Bracket.ofOpener? c with
  | some b => exact opening b hopen
  | none =>
    cases hclose : Bracket.ofCloser? c with
    | some b => exact closing b hclose
    | none =>
      refine ite_related (fun _ => mark _ (by simp)) (ite_related (fun _ => mark _ (by simp))
        (ite_related (fun _ => mark _ (by simp)) (ite_related (fun _ => mark _ (by simp))
          (ite_related number (ite_related proper (ite_related ?_ other))))))
      intro h
      exact word (by simpa using h)

/-- What holds of the round for every character that can begin a token or a blank holds of
every round within a line. -/
theorem within_cases {motive : Round → Prop} (l : Layout) (previous : Option Char) (p : Position)
    (c : Char) (text : List Char)
    (space : isInlineSpace c = true → motive ⟨[.skip 1], l⟩)
    (lineBreak : isLineBreak c = true → motive (endLine l (breakLength text)))
    (comment : c = '#' → motive ⟨[.skip (lineLength text)], l⟩)
    (string : c = '"' → motive ⟨quotedString text, l⟩)
    (tag : c = '<' → motive ⟨typeTag (l.modes.push .typeTag).current text, l⟩)
    (code : c = '$' → motive (embeddedCode l text))
    (bar : motive (bar l c text))
    (colon : c = ':' → motive (colon l previous text))
    (dash : c = '-' → motive (dash l text))
    (opening : ∀ b, Bracket.ofOpener? c = some b → motive (openBracket l b p))
    (closing : ∀ b, Bracket.ofCloser? c = some b → motive (closeBracket l b))
    (mark : ∀ kind ∈ [TokenKind.comma, .dot, .slash, .gt], motive (single l kind 1))
    (number : isDigit c = true → motive ⟨number text, l⟩)
    (proper : isUppercase c = true → motive (properWord l text))
    (word : isLowercase c = true ∨ c = '_' → motive (word l text))
    (other : motive (unexpected l c)) : motive (within l previous p c text) :=
  within_related (R := fun a _ => motive a) l l previous previous p p c text text space lineBreak
    comment string tag code bar colon dash opening closing mark number proper word other

/-- What a round on a text can be, given the layout it starts from. -/
inductive Form (l : Layout) (text : List Char) : Round → Prop
  /-- A line without tokens at the beginning of a logical line. -/
  | blank (begins : l.beginsLine = true) (isBlank : restIsBlank text = true) :
      Form l text
        ⟨[.skip (lineLength text), .skip (breakLength (text.drop (lineLength text)))], l⟩
  /-- The indentation of a logical line. -/
  | indented (begins : l.beginsLine = true) (notBlank : restIsBlank text = false) :
      Form l text
        ⟨indentation (Reindent.ofWidth l.levels (blankLength text)) (blankLength text),
          l.enterLine (blankLength text)⟩
  /-- Pieces that leave the line open. -/
  | within (inside : l.beginsLine = false) {pieces : List Piece} (modes : ModeStack)
      (brackets : List (Bracket × Position)) (inLine : ∀ p ∈ pieces, p.inLine = true)
      (progress : 0 < Piece.total pieces) :
      Form l text ⟨pieces, { l with modes := modes, brackets := brackets }⟩
  /-- Pieces up to the end of the line, where no bracket is open. -/
  | ended (inside : l.beginsLine = false) (closed : l.brackets = []) {pieces : List Piece}
      {length : Nat} (inLine : ∀ p ∈ pieces, p.inLine = true)
      (progress : 0 < Piece.total pieces + length)
      (blank : ∀ c ∈ (text.drop (Piece.total pieces)).take length, isWhitespace c = true) :
      Form l text ⟨pieces ++ [.token .newline length], l.leaveLine⟩

theorem form_of_pieces {l : Layout} {text : List Char} (h : l.beginsLine = false)
    {pieces : List Piece} (hp : ∀ p ∈ pieces, p.inLine = true) (hpos : 0 < Piece.total pieces) :
    Form l text ⟨pieces, l⟩ :=
  .within h l.modes l.brackets hp hpos

theorem form_single {l : Layout} {text : List Char} (h : l.beginsLine = false) {kind : TokenKind}
    (hk : kind.isStructural = false) {n : Nat} (hn : 0 < n) : Form l text (single l kind n) := by
  refine form_of_pieces h ?_ (by simpa [Piece.width] using hn)
  simp [Piece.inLine, hk]

theorem form_unexpected {l : Layout} {text : List Char} (h : l.beginsLine = false) (c : Char) :
    Form l text (unexpected l c) :=
  form_of_pieces h (by simp [Piece.inLine]) (by simp [Piece.width])

theorem form_endLine {l : Layout} {text : List Char} (h : l.beginsLine = false) {n : Nat}
    (hn : 0 < n) (hblank : ∀ c ∈ text.take n, isWhitespace c = true) :
    Form l text (endLine l n) := by
  unfold endLine
  split_ifs with hb
  · rw [← List.nil_append [Piece.token .newline n]]
    exact .ended h (by simpa using hb) (by simp) (by simpa using hn) hblank
  · exact form_of_pieces h (by simp [Piece.inLine]) (by simpa [Piece.width] using hn)

theorem form_thenEndLine {l : Layout} {text : List Char} (h : l.beginsLine = false)
    {pieces : List Piece} (hp : ∀ p ∈ pieces, p.inLine = true) (hpos : 0 < Piece.total pieces) :
    Form l text (thenEndLine pieces l) := by
  unfold thenEndLine endLine
  split_ifs with hb
  · exact .ended h (by simpa using hb) hp hpos (by simp)
  · refine form_of_pieces h ?_ (by rw [Piece.total_append]; omega)
    intro p hmem
    rcases List.mem_append.mp hmem with hmem | hmem
    · exact hp p hmem
    · rw [List.mem_singleton.mp hmem]
      rfl

/-- A colon changes the modes only. -/
theorem afterColon_eq (l : Layout) (rest : List Char) :
    ∃ modes, afterColon l rest = { l with modes := modes } := by
  simp only [afterColon]
  split_ifs
  · exact ⟨_, rfl⟩
  · exact ⟨_, rfl⟩

theorem form_colon {l : Layout} {text : List Char} (h : l.beginsLine = false)
    (previous : Option Char) : Form l text (colon l previous text) := by
  unfold colon
  split_ifs
  · exact form_single h rfl (by omega)
  · obtain ⟨modes, hm⟩ := afterColon_eq l text.tail
    rw [hm]
    exact .within h modes l.brackets (by simp [Piece.inLine, TokenKind.isStructural])
      (by simp [Piece.width])

theorem form_dash {l : Layout} {text : List Char} (h : l.beginsLine = false)
    (ht : text.head? = some '-') : Form l text (dash l text) := by
  obtain ⟨rest, rfl⟩ : ∃ rest, text = '-' :: rest := by
    cases text with
    | nil => exact nomatch ht
    | cons c rest =>
      cases ht
      exact ⟨rest, rfl⟩
  unfold dash
  split
  · exact form_single h rfl (by omega)
  · exact form_single h rfl (by omega)
  · split_ifs
    · exact form_of_pieces h (plain_number.inLine _)
        (by simpa [number, Piece.width] using numberLength_pos_of_minus rest)
    · exact form_single h rfl (by omega)
    · exact form_unexpected h _

theorem form_properWord {l : Layout} {c : Char} {rest : List Char} (h : l.beginsLine = false) :
    Form l (c :: rest) (properWord l (c :: rest)) := by
  obtain ⟨kind, n, heq, hkind, hpos⟩ := exists_single_properWord l (c :: rest)
  rw [heq]
  exact form_single h (TokenKind.isStructural_of_isPlain (TokenKind.isPlain_of_isWordlike hkind))
    (hpos (List.cons_ne_nil c rest))

theorem form_word {l : Layout} {c : Char} {rest : List Char} (h : l.beginsLine = false)
    (hc : isWordChar c = true) : Form l (c :: rest) (word l (c :: rest)) := by
  have hpos : 0 < Piece.total [.token (l.modes.current.wordKind
      (String.ofList ((c :: rest).take (wordLength (c :: rest))))) (wordLength (c :: rest))] := by
    simpa [Piece.width] using wordLength_pos hc rest
  simp only [word]
  split_ifs
  · exact .within h _ l.brackets (by simp [Piece.inLine]) hpos
  · exact form_of_pieces h (by simp [Piece.inLine]) hpos

theorem form_closeBracket {l : Layout} {text : List Char} (h : l.beginsLine = false)
    (b : Bracket) : Form l text (closeBracket l b) := by
  refine .within h l.modes l.brackets.tail ?_ (by rw [Piece.total_append]; simp [Piece.width])
  intro p hp
  rcases List.mem_append.mp hp with hp | hp
  · split at hp
    · rw [List.mem_singleton.mp hp]
      rfl
    · split_ifs at hp
      · cases hp
      · rw [List.mem_singleton.mp hp]
        rfl
  · rw [List.mem_singleton.mp hp]
    rfl

theorem form_embeddedCode {l : Layout} {text : List Char} (h : l.beginsLine = false) :
    Form l text (embeddedCode l text) := by
  unfold embeddedCode
  split
  · exact form_of_pieces h (by simp [Piece.inLine]) (by simp [Piece.width])
  · exact form_of_pieces h ((plain_embedded _ _).inLine _) (total_embedded_pos _ _ _)
  · exact form_thenEndLine h ((plain_embedded _ _).inLine _) (total_embedded_pos _ _ _)

theorem length_pos_of_chompingMarker? {text : List Char} {m : Chomping × Nat}
    (h : chompingMarker? text = some m) : 0 < m.2 := by
  unfold chompingMarker? at h
  split at h
  · cases h; decide
  · cases h; decide
  · cases h; decide
  · cases h; decide
  · cases h

theorem form_bar {l : Layout} {text : List Char} (h : l.beginsLine = false) (c : Char) :
    Form l text (bar l c text) := by
  unfold bar
  split
  · exact form_unexpected h c
  · next chomping n hm =>
    have hn := length_pos_of_chompingMarker? hm
    split_ifs
    · refine form_thenEndLine h ?_ (by simp only [Piece.total_cons, Piece.width]; omega)
      intro p hp
      rcases List.mem_cons.mp hp with rfl | hp
      · rfl
      · exact (plain_capturedBlock rfl _).inLine _ p hp
    · exact form_single h rfl (by omega)
    · exact form_unexpected h c

theorem form_within {l : Layout} (h : l.beginsLine = false) (previous : Option Char) (p : Position)
    (c : Char) (rest : List Char) : Form l (c :: rest) (within l previous p c (c :: rest)) := by
  refine within_cases l previous p c (c :: rest) ?space ?lineBreak ?comment ?string ?tag ?code ?bar
    ?colon ?dash ?opening ?closing ?mark ?number ?proper ?word ?other
  case space => exact fun _ => form_of_pieces h (by simp [Piece.inLine]) (by simp [Piece.width])
  case lineBreak =>
    exact fun hc => form_endLine h (breakLength_pos hc rest) isWhitespace_of_mem_take_breakLength
  case comment =>
    rintro rfl
    refine form_of_pieces h (by simp [Piece.inLine]) ?_
    simpa [Piece.width] using lineLength_pos (by decide) rest
  case string =>
    exact fun _ => form_of_pieces h (plain_quotedString.inLine _) (total_quotedString_pos _)
  case tag => exact fun _ => form_of_pieces h ((plain_typeTag _).inLine _) (total_typeTag_pos _ _)
  case code => exact fun _ => form_embeddedCode h
  case bar => exact form_bar h c
  case colon => exact fun _ => form_colon h previous
  case dash => exact fun hc => form_dash h (by simp [hc])
  case opening =>
    exact fun b _ => .within h l.modes _ (by simp [Piece.inLine, TokenKind.isStructural])
      (by simp [Piece.width])
  case closing => exact fun b _ => form_closeBracket h b
  case mark =>
    have hinLine : ∀ kind ∈ [TokenKind.comma, .dot, .slash, .gt], kind.isStructural = false := by
      decide
    exact fun kind hk => form_single h (hinLine kind hk) (by omega)
  case number =>
    intro hc
    refine form_of_pieces h (plain_number.inLine _) ?_
    simpa [number, Piece.width] using numberLength_pos_of_digit hc rest
  case proper => exact fun _ => form_properWord h
  case word =>
    intro hc
    refine form_word h ?_
    rcases hc with hc | rfl
    · exact isWordChar_of_isAlphabetic (isAlphabetic_of_isLowercase hc)
    · decide
  case other => exact form_unexpected h c

/-- At the beginning of a line a blank line is passed, or an indentation is read. -/
theorem beginLine_cases {motive : Round → Prop} (l : Layout) (text : List Char)
    (blank : restIsBlank text = true →
      motive ⟨[.skip (lineLength text), .skip (breakLength (text.drop (lineLength text)))], l⟩)
    (indented : restIsBlank text = false →
      motive ⟨indentation (Reindent.ofWidth l.levels (blankLength text)) (blankLength text),
        l.enterLine (blankLength text)⟩) : motive (beginLine l text) := by
  unfold beginLine
  split_ifs with h
  · exact blank h
  · exact indented (by simpa using h)

theorem form_beginLine {l : Layout} (h : l.beginsLine = true) (text : List Char) :
    Form l text (beginLine l text) :=
  beginLine_cases l text (.blank h) (.indented h)

section

variable {l : Layout} {cursor : Cursor} {c : Char} {rest : List Char}

theorem next_beginsLine (hbegins : l.beginsLine = true) (hrest : cursor.rest ≠ []) :
    next l cursor = beginLine l cursor.rest := by
  obtain ⟨c, rest, hcons⟩ := List.exists_cons_of_ne_nil hrest
  rw [next, hcons]
  exact if_pos hbegins

theorem next_within (hinside : l.beginsLine = false) (hrest : cursor.rest = c :: rest) :
    next l cursor = within l cursor.previous cursor.position c (c :: rest) := by
  rw [next, hrest]
  exact if_neg (by simp [hinside])

theorem within_space (hc : isInlineSpace c = true) (l : Layout) (previous : Option Char)
    (p : Position) (text : List Char) : within l previous p c text = ⟨[.skip 1], l⟩ := by
  rw [within, if_pos hc]

theorem within_break (hc : isLineBreak c = true) (l : Layout) (previous : Option Char)
    (p : Position) (text : List Char) :
    within l previous p c text = endLine l (breakLength text) := by
  obtain rfl | rfl : c = '\n' ∨ c = '\r' := by simpa [isLineBreak] using hc
  · rfl
  · rfl

/-- What holds where nothing is left, at the beginning of a line and within a line holds of every
round. -/
theorem next_cases {motive : Round → Prop} (l : Layout) (cursor : Cursor)
    (ended : cursor.rest = [] → motive ⟨[], l⟩)
    (begun : l.beginsLine = true → motive (beginLine l cursor.rest))
    (inside : ∀ c rest, cursor.rest = c :: rest → l.beginsLine = false →
      motive (within l cursor.previous cursor.position c (c :: rest))) :
    motive (next l cursor) := by
  cases hrest : cursor.rest with
  | nil =>
    rw [next, hrest]
    exact ended hrest
  | cons c rest =>
    cases hl : l.beginsLine with
    | true =>
      rw [next_beginsLine hl (by simp [hrest])]
      exact begun hl
    | false =>
      rw [next_within hl hrest]
      exact inside c rest hrest hl

/-- Every round on a text that is left has one of the four forms. -/
theorem next_form (l : Layout) {cursor : Cursor} (h : cursor.rest ≠ []) :
    Form l cursor.rest (next l cursor) := by
  refine next_cases (motive := Form l cursor.rest) l cursor (fun hnil => absurd hnil h)
    (fun hl => form_beginLine hl _) fun c rest hrest hl => ?_
  rw [hrest]
  exact form_within hl _ _ c rest

end

end Round

end AgentScript
