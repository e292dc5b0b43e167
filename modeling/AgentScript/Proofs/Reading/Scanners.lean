import AgentScript.Reading.Tokens
import Mathlib.Tactic.Common

/-!
# What scanners produce

Scanners read what stands within a line: none of them produces a layout token or a bracket, and
each takes a character at least where it is called.
-/
namespace AgentScript

/-- The piece is no layout token. -/
def Piece.inLine : Piece → Bool
  | .token kind _ => !kind.isStructural
  | _ => true

/-- Whether the kind is neither of the layout nor that of a bracket. -/
def TokenKind.isPlain : TokenKind → Bool
  | indent | dedent | newline | eof | opening _ | closing _ => false
  | _ => true

/-- Whether the cause is no bracket. -/
def LexicalCause.isPlain : LexicalCause → Bool
  | unclosedBracket _ | mismatchedBracket _ _ | unmatchedBracket _ => false
  | _ => true

/-- The piece has nothing to do with the layout or with brackets. -/
def Piece.isPlain : Piece → Bool
  | .skip _ => true
  | .token kind _ => kind.isPlain
  | .fault cause _ => cause.isPlain

theorem TokenKind.isStructural_of_isPlain {k : TokenKind} (h : k.isPlain = true) :
    k.isStructural = false := by
  cases k <;> simp_all [isPlain, isStructural]

theorem Piece.inLine_of_isPlain {p : Piece} (h : p.isPlain = true) : p.inLine = true := by
  cases p with
  | skip n => rfl
  | token kind n => simp [inLine, TokenKind.isStructural_of_isPlain h]
  | fault cause n => rfl

theorem TokenKind.isPlain_of_isWordlike {k : TokenKind} (h : k.isWordlike = true) :
    k.isPlain = true := by
  cases k <;> simp_all [isPlain, isWordlike]

theorem TokenKind.isWordlike_of_ofLiteralWord? {w : String} {k : TokenKind}
    (h : ofLiteralWord? w = some k) : k.isWordlike = true := by
  obtain ⟨l, -, rfl⟩ := Option.map_eq_some_iff.mp h
  rfl

theorem TokenKind.isWordlike_of_ofKeyword? {w : String} {k : TokenKind}
    (h : ofKeyword? w = some k) : k.isWordlike = true := by
  unfold ofKeyword? at h
  split at h
  · cases h
    rfl
  · exact isWordlike_of_ofLiteralWord? h

namespace Mode

theorem prefersTypeNames_eq_false {m : Mode} (h : m ≠ .typeTag) : m.prefersTypeNames = false := by
  cases m with
  | typeTag => exact absurd rfl h
  | default | booleanContext | sectionName => rfl

theorem isWordlike_wordKind {m : Mode} (h : m.prefersTypeNames = false) (word : String) :
    (m.wordKind word).isWordlike = true := by
  unfold wordKind
  rw [h, if_neg Bool.false_ne_true]
  split_ifs
  · cases hk : TokenKind.ofKeyword? word with
    | none => rfl
    | some k => exact TokenKind.isWordlike_of_ofKeyword? hk
  · rfl

theorem isWordlike_properWordKind (m : Mode) (run : String) :
    (m.properWordKind run).isWordlike = true := by
  unfold properWordKind
  split_ifs
  · cases h : TokenKind.ofLiteralWord? run with
    | none => rfl
    | some k => exact TokenKind.isWordlike_of_ofLiteralWord? h
  · rfl

theorem wordKind_isPlain (m : Mode) (w : String) : (m.wordKind w).isPlain = true := by
  cases h : m.prefersTypeNames with
  | true =>
    rw [wordKind, h, if_pos rfl]
    rfl
  | false => exact TokenKind.isPlain_of_isWordlike (isWordlike_wordKind h w)

@[simp] theorem wordKind_isStructural (m : Mode) (w : String) :
    (m.wordKind w).isStructural = false :=
  TokenKind.isStructural_of_isPlain (m.wordKind_isPlain w)

end Mode

/-- A round on a proper word reads one token, which is a word. -/
theorem Round.exists_single_properWord (l : Layout) (text : List Char) :
    ∃ kind n, properWord l text = single l kind n ∧ kind.isWordlike = true ∧
      (text ≠ [] → 0 < n) := by
  have hpos : text ≠ [] → 0 < Lexeme.segmentLength text ∧ 0 < Lexeme.properWordLength text := by
    cases text with
    | nil => exact absurd rfl
    | cons c rest => exact fun _ => ⟨Nat.succ_pos _, Nat.succ_pos _⟩
  unfold properWord
  dsimp only
  split
  · next kind hk =>
    split_ifs at hk
    exact ⟨kind, _, rfl, TokenKind.isWordlike_of_ofLiteralWord? hk, fun h => (hpos h).1⟩
  · exact ⟨_, _, rfl, Mode.isWordlike_properWordKind _ _, fun h => (hpos h).2⟩

namespace Lexeme

open CharClass

/-- The scanner gives plain pieces on any text. -/
def Plain (s : Scanner) : Prop := ∀ text, ∀ p ∈ s text, p.isPlain = true

theorem Plain.inLine {s : Scanner} (h : Plain s) (text : List Char) :
    ∀ p ∈ s text, p.inLine = true :=
  fun p hp => Piece.inLine_of_isPlain (h text p hp)

theorem Plain.andThen {first second : Scanner} (h : Plain first) (h' : Plain second) :
    Plain (Scanner.andThen first second) := by
  intro text p hp
  rcases List.mem_append.mp hp with hp | hp
  · exact h text p hp
  · exact h' _ p hp

theorem Plain.sequence {scanners : List Scanner} (h : ∀ s ∈ scanners, Plain s) :
    Plain (Scanner.sequence scanners) := by
  induction scanners with
  | nil => exact fun _ _ hp => nomatch hp
  | cons s rest ih =>
    exact (h s (List.mem_cons_self ..)).andThen (ih fun t ht => h t (List.mem_cons_of_mem _ ht))

theorem plain_skipping (length : List Char → Nat) : Plain (Scanner.skipping length) := by
  intro text p hp
  rw [List.mem_singleton.mp hp]
  rfl

theorem plain_tokenOf {kind : TokenKind} (h : kind.isPlain = true)
    (length : List Char → Nat) : Plain (Scanner.tokenOf kind length) := by
  intro text p hp
  unfold Scanner.tokenOf at hp
  split_ifs at hp
  · exact nomatch hp
  · rw [List.mem_singleton.mp hp]
    simp [Piece.isPlain, h]

theorem plain_number : Plain number := by
  intro text p hp
  rw [List.mem_singleton.mp hp]
  rfl

theorem plain_quotedString : Plain quotedString := by
  intro text p hp
  simp only [quotedString] at hp
  split_ifs at hp <;> simp only [List.mem_cons, List.not_mem_nil, or_false] at hp
  · rw [hp]; rfl
  · rcases hp with rfl | rfl <;> rfl

theorem plain_tagText {kind : TokenKind} (h : kind.isPlain = true)
    (isDelimiter : Char → Bool) : Plain (tagText kind isDelimiter) := by
  intro text p hp
  rcases List.mem_append.mp hp with hp | hp
  · split_ifs at hp
    · exact nomatch hp
    · rw [List.mem_singleton.mp hp]
      simp [Piece.isPlain, h]
  · rw [List.mem_singleton.mp hp]
    rfl

theorem plain_single {kind : TokenKind} (h : kind.isPlain = true) (n : Nat) :
    Plain fun _ => [.token kind n] := by
  intro text p hp
  rw [List.mem_singleton.mp hp]
  simp [Piece.isPlain, h]

theorem plain_tagModifier : Plain tagModifier := by
  intro text p hp
  unfold tagModifier at hp
  split at hp
  · refine Plain.sequence ?_ _ p hp
    simp only [List.mem_cons, List.not_mem_nil, or_false]
    rintro s (rfl | rfl | rfl)
    · exact plain_single rfl 1
    · exact plain_skipping _
    · exact plain_tagText rfl _
  · exact nomatch hp

theorem plain_typeName (mode : Mode) : Plain (typeName mode) :=
  fun text => plain_tokenOf (mode.wordKind_isPlain _) _ text

theorem plain_openTag (mode : Mode) : Plain (openTag mode) := by
  refine Plain.sequence ?_
  simp only [List.mem_cons, List.not_mem_nil, or_false]
  rintro s (rfl | rfl | rfl | rfl | rfl | rfl)
  · exact plain_single rfl 1
  · exact plain_skipping _
  · exact plain_typeName mode
  · exact plain_skipping _
  · exact plain_tagText rfl _
  · exact plain_tagModifier

theorem plain_typeTag (mode : Mode) : Plain (typeTag mode) := by
  intro text p hp
  simp only [typeTag] at hp
  split at hp
  · rcases List.mem_append.mp hp with hp | hp
    · exact plain_openTag mode text p hp
    · rw [List.mem_singleton.mp hp]
      rfl
  · rcases List.mem_cons.mp hp with rfl | hp
    · rfl
    · exact plain_openTag mode text p hp

theorem plain_capturedLines {content : TokenKind} (h : content.isPlain = true)
    (base fuel : Nat) : Plain (capturedLines content base fuel) := by
  induction fuel with
  | zero => exact fun _ _ hp => nomatch hp
  | succ fuel ih =>
    intro text p hp
    simp only [capturedLines] at hp
    split_ifs at hp
    · exact nomatch hp
    · simp only [List.mem_cons] at hp
      rcases hp with rfl | rfl | hp
      · simp [Piece.isPlain, h]
      · rfl
      · exact ih _ p hp

theorem plain_capturedBlock {content : TokenKind} (h : content.isPlain = true)
    (base : Nat) : Plain (capturedBlock content base) := by
  intro text p hp
  rcases List.mem_append.mp hp with hp | hp
  · split_ifs at hp
    · exact nomatch hp
    · rw [List.mem_singleton.mp hp]
      rfl
  · simp only [List.mem_cons] at hp
    rcases hp with rfl | rfl | hp
    · rfl
    · rfl
    · exact plain_capturedLines h base _ _ p hp

theorem plain_marker (form : MarkerForm) : Plain (marker form) := by
  intro text p hp
  rcases List.mem_append.mp hp with hp | hp
  · split_ifs at hp
    · exact nomatch hp
    · rw [List.mem_singleton.mp hp]
      rfl
  · rw [List.mem_singleton.mp hp]
    cases form <;> rfl

theorem plain_embedded (form : MarkerForm) (base : Nat) : Plain (embedded form base) := by
  refine (plain_marker form).andThen ?_
  cases form
  · exact (plain_skipping _).andThen (plain_tokenOf rfl _)
  · exact plain_capturedBlock rfl base

theorem spanLength_cons_of_pos {p : Char → Bool} {c : Char} (h : p c = true) (rest : List Char) :
    spanLength p (c :: rest) = spanLength p rest + 1 := by
  simp [spanLength, h]

theorem breakLength_pos {c : Char} (h : isLineBreak c = true) (rest : List Char) :
    0 < breakLength (c :: rest) := by
  have hc : c = '\n' ∨ c = '\r' := by simpa [isLineBreak] using h
  unfold breakLength
  rcases hc with rfl | rfl
  · simp
  · split <;> simp_all

/-- A line break is whitespace. -/
theorem isWhitespace_of_mem_take_breakLength {text : List Char} :
    ∀ c ∈ text.take (breakLength text), isWhitespace c = true := by
  unfold breakLength
  split
  · intro c hc
    have : c = '\r' ∨ c = '\n' := by simpa using hc
    rcases this with rfl | rfl <;> decide
  · intro c hc
    have : c = '\r' := by simpa using hc
    subst this
    decide
  · intro c hc
    have : c = '\n' := by simpa using hc
    subst this
    decide
  · simp

theorem lineLength_pos {c : Char} (h : isLineBreak c = false) (rest : List Char) :
    0 < lineLength (c :: rest) := by
  unfold lineLength
  rw [spanLength_cons_of_pos (by simp [h])]
  omega

theorem lineLength_add_breakLength_pos {text : List Char} (h : text ≠ []) :
    0 < lineLength text + breakLength (text.drop (lineLength text)) := by
  obtain ⟨c, rest, rfl⟩ := List.exists_cons_of_ne_nil h
  cases hc : isLineBreak c with
  | false =>
    have := lineLength_pos hc rest
    omega
  | true =>
    have hzero : lineLength (c :: rest) = 0 := by
      simp [lineLength, spanLength, hc]
    rw [hzero]
    have := breakLength_pos hc rest
    simpa using this

/-- What holds of the empty text, and of a text where it holds behind the first line, holds of every
text. -/
theorem line_induction {motive : List Char → Prop} (nil : motive [])
    (line : ∀ text, text ≠ [] →
      motive (text.drop (lineLength text + breakLength (text.drop (lineLength text)))) →
        motive text)
    (text : List Char) : motive text := by
  induction hn : text.length using Nat.strongRecOn generalizing text with
  | ind n ih =>
    by_cases hne : text = []
    · rw [hne]
      exact nil
    · have hpos := lineLength_add_breakLength_pos hne
      have htext := List.length_pos_iff.mpr hne
      refine line text hne (ih _ ?_ _ rfl)
      rw [List.length_drop]
      omega

section

variable {content : TokenKind} {base fuel : Nat} {text : List Char}

theorem capturedLines_of_stop (h : text = [] ∨ captures base text = false) :
    capturedLines content base fuel text = [] := by
  cases fuel with
  | zero => rfl
  | succ fuel => rcases h with h | h <;> simp [capturedLines, h]

/-- A bound on the number of lines makes no difference where the text is no longer. -/
theorem capturedLines_eq_of_le (h : text.length ≤ fuel) :
    capturedLines content base fuel text = capturedLines content base text.length text := by
  induction text using line_induction generalizing fuel with
  | nil => rw [capturedLines_of_stop (.inl rfl), capturedLines_of_stop (.inl rfl)]
  | line text hne ih =>
    have hpos := lineLength_add_breakLength_pos hne
    have htext := List.length_pos_iff.mpr hne
    obtain ⟨n, hn⟩ : ∃ n, text.length = n + 1 := ⟨text.length - 1, by omega⟩
    obtain ⟨m, rfl⟩ : ∃ m, fuel = m + 1 := ⟨fuel - 1, by omega⟩
    have hbelow : (text.drop (lineLength text +
        breakLength (text.drop (lineLength text)))).length ≤ min n m := by
      rw [List.length_drop]
      omega
    rw [hn, capturedLines, capturedLines]
    dsimp only
    rw [ih (Nat.le_trans hbelow (Nat.min_le_left n m)),
      ih (Nat.le_trans hbelow (Nat.min_le_right n m))]

/-- A captured line is one token, and the captured lines below follow. -/
theorem capturedLines_of_captures (hne : text ≠ []) (h : captures base text = true) :
    capturedLines content base text.length text =
      .token content (lineLength text) :: .skip (breakLength (text.drop (lineLength text))) ::
        capturedLines content base
          (text.drop (lineLength text + breakLength (text.drop (lineLength text)))).length
          (text.drop (lineLength text + breakLength (text.drop (lineLength text)))) := by
  have hpos := lineLength_add_breakLength_pos hne
  have htext := List.length_pos_iff.mpr hne
  obtain ⟨n, hn⟩ : ∃ n, text.length = n + 1 := ⟨text.length - 1, by omega⟩
  have hbelow : (text.drop (lineLength text +
      breakLength (text.drop (lineLength text)))).length ≤ n := by
    rw [List.length_drop]
    omega
  rw [← capturedLines_eq_of_le hbelow, hn, capturedLines, if_neg (by simp [hne, h])]

end

theorem wordLength_pos {c : Char} (h : isWordChar c = true) (rest : List Char) :
    0 < wordLength (c :: rest) := by
  unfold wordLength
  rw [spanLength_cons_of_pos h]
  omega

theorem digitsLength_pos {c : Char} (h : isDigit c = true) (rest : List Char) :
    0 < digitsLength (c :: rest) := by
  unfold digitsLength
  rw [spanLength_cons_of_pos h]
  omega

theorem numberLength_pos_of_digit {c : Char} (h : isDigit c = true) (rest : List Char) :
    0 < numberLength (c :: rest) := by
  have hm : minusLength (c :: rest) = 0 := by
    have hne : c ≠ '-' := by
      rintro rfl
      exact absurd h (by decide)
    unfold minusLength
    split
    · next heq =>
      cases heq
      exact absurd rfl hne
    · rfl
  have hd := digitsLength_pos h rest
  simp only [numberLength, hm, List.drop_zero]
  omega

theorem numberLength_pos_of_minus (rest : List Char) : 0 < numberLength ('-' :: rest) := by
  simp only [numberLength, minusLength]
  omega

theorem total_quotedString_pos (text : List Char) : 0 < Piece.total (quotedString text) := by
  have hpos : 0 < (stringExtent text).length := by
    simp [stringExtent, Extent.lengthen]
  simp only [quotedString]
  split_ifs
  · simpa [Piece.width] using hpos
  · simpa [Piece.width] using hpos

theorem total_openTag_pos (mode : Mode) (text : List Char) :
    0 < Piece.total (openTag mode text) := by
  simp only [openTag, Scanner.sequence, Scanner.andThen, Piece.total_append, Piece.total_cons,
    Piece.width]
  omega

theorem total_typeTag_pos (mode : Mode) (text : List Char) :
    0 < Piece.total (typeTag mode text) := by
  have h := total_openTag_pos mode text
  simp only [typeTag]
  split
  · rw [Piece.total_append]
    omega
  · simpa [Piece.width] using h

theorem total_embedded_pos (form : MarkerForm) (base : Nat) (text : List Char) :
    0 < Piece.total (embedded form base text) := by
  have h : 0 < Piece.total (marker form text) := by
    simp only [marker, markerLength, Piece.total_append, Piece.total_cons, Piece.width]
    omega
  simp only [embedded, Scanner.andThen, Piece.total_append]
  omega

end Lexeme

end AgentScript
