import AgentScript.Proofs.Reading.Composites
import AgentScript.Proofs.Reading.Spans

/-!
# Brackets of a text

The brackets of a text are matched if every closing bracket closes one of its own form that was
opened behind all others still open. Reading counts the open brackets with a stack and reports a
bracket error just where they are not matched. Lines end and blocks begin outside brackets only.
-/
namespace AgentScript

open CharClass Lexeme

/-- An opening or a closing bracket. -/
inductive BracketMark
  | opens (bracket : Bracket)
  | closes (bracket : Bracket)
deriving DecidableEq

/-- Words in which brackets enclose words of the same sort. -/
inductive Matched : List BracketMark → Prop
  | nil : Matched []
  | enclose (b : Bracket) {inner rest : List BracketMark} (inside : Matched inner)
      (behind : Matched rest) : Matched (.opens b :: (inner ++ .closes b :: rest))

namespace BracketMark

/-- The open brackets, the innermost first, behind a further one: a closing bracket takes one away
if there is one. -/
def pass (stack : List Bracket) : BracketMark → List Bracket
  | opens b => b :: stack
  | closes _ => stack.tail

/-- Every closing bracket has the form of the innermost open one. -/
def Fits : List Bracket → List BracketMark → Prop
  | _, [] => True
  | stack, opens b :: word => Fits (b :: stack) word
  | stack, closes b :: word => stack.head? = some b ∧ Fits stack.tail word

variable {stack : List Bracket} {word word' : List BracketMark}

theorem fits_append :
    Fits stack (word ++ word') ↔ Fits stack word ∧ Fits (word.foldl pass stack) word' := by
  induction word generalizing stack with
  | nil => simp [Fits]
  | cons m word ih => cases m <;> simp [Fits, pass, ih, and_assoc]

/-- A matched word leaves the open brackets as they are. -/
theorem foldl_pass_of_matched (h : Matched word) (stack : List Bracket) :
    word.foldl pass stack = stack ∧ Fits stack word := by
  induction h generalizing stack with
  | nil => exact ⟨rfl, trivial⟩
  | enclose b inside behind ihInside ihBehind =>
    obtain ⟨hopen, hfits⟩ := ihInside (b :: stack)
    obtain ⟨hstack, hrest⟩ := ihBehind stack
    refine ⟨?_, ?_⟩
    · simp [pass, hopen, hstack]
    · simpa [Fits, fits_append, hfits, hopen] using hrest

/-- Words that close the open brackets one by one, with matched words before, between and behind
the closing brackets. -/
inductive Completes : List Bracket → List BracketMark → Prop
  | matched {word : List BracketMark} (h : Matched word) : Completes [] word
  | close {b : Bracket} {stack : List Bracket} {inner rest : List BracketMark}
      (inside : Matched inner) (behind : Completes stack rest) :
      Completes (b :: stack) (inner ++ .closes b :: rest)

theorem Completes.enclose (b : Bracket) {inner rest : List BracketMark} (inside : Matched inner)
    (behind : Completes stack rest) :
    Completes stack (.opens b :: (inner ++ .closes b :: rest)) := by
  cases behind with
  | matched h => exact .matched (.enclose b inside h)
  | @close b' stack' inner' rest' inside' behind' =>
    have hclose := Completes.close (b := b') (Matched.enclose b inside inside') behind'
    simpa using hclose

/-- A word that fits the open brackets and leaves none completes them. -/
theorem completes_of_fits (hfits : Fits stack word) (hend : word.foldl pass stack = []) :
    Completes stack word := by
  induction word generalizing stack with
  | nil =>
    obtain rfl : stack = [] := hend
    exact .matched .nil
  | cons m word ih =>
    cases m with
    | opens b =>
      cases ih hfits hend with
      | close inside behind => exact .enclose b inside behind
    | closes b =>
      obtain ⟨hhead, hfits⟩ := hfits
      obtain ⟨stack, rfl⟩ := List.head?_eq_some_iff.mp hhead
      exact .close .nil (ih hfits hend)

/-- A word is matched if it fits from nothing to nothing. -/
theorem matched_iff : Matched word ↔ Fits [] word ∧ word.foldl pass [] = [] := by
  constructor
  · intro h
    obtain ⟨hend, hfits⟩ := foldl_pass_of_matched h []
    exact ⟨hfits, hend⟩
  · rintro ⟨hfits, hend⟩
    cases completes_of_fits hfits hend with
    | matched h => exact h

end BracketMark

namespace TokenKind

def bracketMark? : TokenKind → Option BracketMark
  | opening b => some (.opens b)
  | closing b => some (.closes b)
  | _ => none

/-- The brackets among kinds. -/
def marks (kinds : List TokenKind) : List BracketMark := kinds.filterMap bracketMark?

/-- The brackets open behind kinds, the innermost first. -/
def openBrackets (kinds : List TokenKind) : List Bracket := (marks kinds).foldl BracketMark.pass []

theorem bracketMark?_of_isPlain {k : TokenKind} (h : k.isPlain = true) : k.bracketMark? = none := by
  cases k <;> simp_all [isPlain, bracketMark?]

theorem marks_append (kinds kinds' : List TokenKind) :
    marks (kinds ++ kinds') = marks kinds ++ marks kinds' := List.filterMap_append

theorem marks_eq_nil {kinds : List TokenKind} (h : ∀ k ∈ kinds, k.bracketMark? = none) :
    marks kinds = [] := List.filterMap_eq_nil_iff.mpr h

end TokenKind

open TokenKind

namespace Piece

/-- The piece is no bracket and no fault about one. -/
def isBracketless : Piece → Bool
  | .skip _ => true
  | .token kind _ => kind.bracketMark?.isNone
  | .fault cause _ => cause.isPlain

theorem isBracketless_of_isPlain {p : Piece} (h : p.isPlain = true) : p.isBracketless = true := by
  cases p with
  | skip n => rfl
  | token kind n => simp [isBracketless, bracketMark?_of_isPlain h]
  | fault cause n => exact h

theorem marks_kinds_of_isBracketless {ps : List Piece} (h : ∀ p ∈ ps, p.isBracketless = true) :
    marks (kinds ps) = [] := by
  refine marks_eq_nil fun k hk => ?_
  obtain ⟨p, hp, hpk⟩ := List.mem_filterMap.mp hk
  have hbracketless := h p hp
  cases p with
  | skip n => cases hpk
  | token kind n =>
    cases hpk
    simpa [isBracketless] using hbracketless
  | fault cause n => cases hpk

end Piece

/-- The forms of the open brackets, the innermost first. -/
def Layout.openBrackets (l : Layout) : List Bracket := l.brackets.map Prod.fst

namespace Round

/-- A round that counts its brackets, and reports those that do not fit. -/
structure CountsBrackets (l : Layout) (r : Round) : Prop where
  stack : r.layout.openBrackets =
    (marks (Piece.kinds r.pieces)).foldl BracketMark.pass l.openBrackets
  faults : (∀ cause n, .fault cause n ∈ r.pieces → cause.isPlain = true) ↔
    BracketMark.Fits l.openBrackets (marks (Piece.kinds r.pieces))

variable {l : Layout} {text : List Char}

theorem countsBrackets_of_isBracketless {r : Round} (h : ∀ p ∈ r.pieces, p.isBracketless = true)
    (hbrackets : r.layout.brackets = l.brackets) : CountsBrackets l r := by
  have hmarks := Piece.marks_kinds_of_isBracketless h
  constructor
  case stack => rw [hmarks, Layout.openBrackets, hbrackets]; rfl
  case faults =>
    rw [hmarks]
    exact iff_of_true (fun cause n hmem => h _ hmem) trivial

theorem countsBrackets_scan {s : Scanner} (h : Plain s) (text : List Char) (l : Layout) :
    CountsBrackets l ⟨s text, l⟩ :=
  countsBrackets_of_isBracketless (fun p hp => Piece.isBracketless_of_isPlain (h text p hp)) rfl

theorem countsBrackets_single {kind : TokenKind} (h : kind.isPlain = true) (n : Nat) :
    CountsBrackets l (single l kind n) :=
  countsBrackets_of_isBracketless
    (by simp [single, Piece.isBracketless, bracketMark?_of_isPlain h]) rfl

theorem countsBrackets_unexpected (l : Layout) (c : Char) : CountsBrackets l (unexpected l c) :=
  countsBrackets_of_isBracketless
    (by simp [unexpected, Piece.isBracketless, LexicalCause.isPlain]) rfl

theorem isBracketless_endLine (l : Layout) (n : Nat) :
    ∀ p ∈ (endLine l n).pieces, p.isBracketless = true := by
  unfold endLine
  split_ifs <;> simp [Piece.isBracketless, bracketMark?]

theorem countsBrackets_endLine (l : Layout) (n : Nat) : CountsBrackets l (endLine l n) :=
  countsBrackets_of_isBracketless (isBracketless_endLine l n) (brackets_endLine l n)

theorem countsBrackets_thenEndLine {pieces : List Piece} (h : ∀ p ∈ pieces, p.isPlain = true)
    (l : Layout) : CountsBrackets l (thenEndLine pieces l) := by
  refine countsBrackets_of_isBracketless (fun p hp => ?_) (brackets_thenEndLine pieces l)
  rcases List.mem_append.mp hp with hp | hp
  · exact Piece.isBracketless_of_isPlain (h p hp)
  · exact isBracketless_endLine l 0 p hp

theorem countsBrackets_beginLine (l : Layout) (text : List Char) :
    CountsBrackets l (beginLine l text) := by
  refine beginLine_cases l text (fun _ => ?_) fun _ => ?_
  · exact countsBrackets_of_isBracketless (by simp [Piece.isBracketless]) rfl
  · refine countsBrackets_of_isBracketless ?_ rfl
    dsimp only
    unfold indentation
    split_ifs <;>
      simp +contextual [or_imp, List.mem_replicate, Piece.isBracketless, bracketMark?,
        LexicalCause.isPlain]

theorem countsBrackets_embeddedCode (l : Layout) (text : List Char) :
    CountsBrackets l (embeddedCode l text) := by
  unfold embeddedCode
  split
  · exact countsBrackets_of_isBracketless (by simp [Piece.isBracketless, LexicalCause.isPlain]) rfl
  · exact countsBrackets_scan (plain_embedded .inline l.lineWidth) text l
  · exact countsBrackets_thenEndLine (plain_embedded .block l.lineWidth text) l

theorem countsBrackets_bar (l : Layout) (c : Char) (text : List Char) :
    CountsBrackets l (bar l c text) := by
  unfold bar
  split
  · exact countsBrackets_unexpected l c
  · split_ifs
    · exact countsBrackets_thenEndLine
        (List.forall_mem_cons.mpr ⟨rfl, plain_capturedBlock rfl _ _⟩) l
    · exact countsBrackets_single rfl 1
    · exact countsBrackets_unexpected l c

theorem countsBrackets_colon (l : Layout) (previous : Option Char) (text : List Char) :
    CountsBrackets l (colon l previous text) := by
  refine countsBrackets_of_isBracketless ?_ (brackets_colon l previous text)
  unfold colon
  split_ifs <;> simp [single, Piece.isBracketless, bracketMark?]

theorem countsBrackets_dash (l : Layout) (text : List Char) : CountsBrackets l (dash l text) := by
  unfold dash
  split
  · exact countsBrackets_single rfl 1
  · exact countsBrackets_single rfl 2
  · split_ifs
    · exact countsBrackets_scan plain_number text l
    · exact countsBrackets_single rfl 1
    · exact countsBrackets_unexpected l '-'

theorem countsBrackets_properWord (l : Layout) (text : List Char) :
    CountsBrackets l (properWord l text) := by
  obtain ⟨kind, n, heq, hkind, -⟩ := exists_single_properWord l text
  rw [heq]
  exact countsBrackets_single (isPlain_of_isWordlike hkind) n

theorem countsBrackets_word (l : Layout) (text : List Char) : CountsBrackets l (word l text) := by
  refine countsBrackets_of_isBracketless ?_ (brackets_word l text)
  simp [word, Piece.isBracketless, bracketMark?_of_isPlain (Mode.wordKind_isPlain _ _)]

theorem countsBrackets_openBracket (l : Layout) (b : Bracket) (p : Position) :
    CountsBrackets l (openBracket l b p) :=
  ⟨rfl, iff_of_true (by simp [openBracket]) trivial⟩

/-- A closing bracket is reported unless it has the form of the innermost open one. -/
theorem countsBrackets_closeBracket (l : Layout) (b : Bracket) :
    CountsBrackets l (closeBracket l b) := by
  have hmarks : marks (Piece.kinds (closeBracket l b).pieces) = [.closes b] := by
    unfold closeBracket
    dsimp only
    split
    · rfl
    · split_ifs <;> rfl
  constructor
  case stack =>
    rw [hmarks]
    exact List.map_tail
  case faults =>
    rw [hmarks]
    unfold closeBracket Layout.openBrackets
    cases hopen : l.brackets with
    | nil => simp [BracketMark.Fits, LexicalCause.isPlain]
    | cons top more =>
      obtain ⟨o, p⟩ := top
      by_cases hob : o = b <;> simp [BracketMark.Fits, LexicalCause.isPlain, hob]

theorem countsBrackets_within (l : Layout) (previous : Option Char) (p : Position) (c : Char)
    (text : List Char) : CountsBrackets l (within l previous p c text) := by
  refine within_cases l previous p c text ?space ?lineBreak ?comment ?string ?tag ?code ?bar ?colon
    ?dash ?opening ?closing ?mark ?number ?proper ?word ?other
  case space => exact fun _ => countsBrackets_of_isBracketless (by simp [Piece.isBracketless]) rfl
  case lineBreak => exact fun _ => countsBrackets_endLine l _
  case comment => exact fun _ => countsBrackets_of_isBracketless (by simp [Piece.isBracketless]) rfl
  case string => exact fun _ => countsBrackets_scan plain_quotedString text l
  case tag => exact fun _ => countsBrackets_scan (plain_typeTag _) text l
  case code => exact fun _ => countsBrackets_embeddedCode l text
  case bar => exact countsBrackets_bar l c text
  case colon => exact fun _ => countsBrackets_colon l previous text
  case dash => exact fun _ => countsBrackets_dash l text
  case opening => exact fun b _ => countsBrackets_openBracket l b p
  case closing => exact fun b _ => countsBrackets_closeBracket l b
  case mark =>
    have hplain : ∀ kind ∈ [TokenKind.comma, .dot, .slash, .gt], kind.isPlain = true := by decide
    exact fun kind hk => countsBrackets_single (hplain kind hk) 1
  case number => exact fun _ => countsBrackets_scan plain_number text l
  case proper => exact fun _ => countsBrackets_properWord l text
  case word => exact fun _ => countsBrackets_word l text
  case other => exact countsBrackets_unexpected l c

theorem countsBrackets_next (l : Layout) (cursor : Cursor) : CountsBrackets l (next l cursor) := by
  refine next_cases l cursor (fun _ => ?_) (fun _ => countsBrackets_beginLine l _)
    fun c rest _ _ => countsBrackets_within l _ _ c _
  exact countsBrackets_of_isBracketless nofun rfl

end Round

namespace TokenKind

/-- Lines end and blocks begin where no bracket is open. -/
def BreaksOutside (kinds : List TokenKind) : Prop :=
  ∀ before k, before ++ [k] <+: kinds → k = newline ∨ k = indent → openBrackets before = []

variable {kinds more : List TokenKind} {k : TokenKind}

theorem openBrackets_append :
    openBrackets (kinds ++ more) = (marks more).foldl BracketMark.pass (openBrackets kinds) := by
  rw [openBrackets, marks_append, List.foldl_append, openBrackets]

theorem breaksOutside_nil : BreaksOutside [] :=
  fun before k h => absurd (List.prefix_nil.mp h) (by simp)

theorem BreaksOutside.push (h : BreaksOutside kinds)
    (hk : k = newline ∨ k = indent → openBrackets kinds = []) : BreaksOutside (kinds ++ [k]) := by
  intro before k' hprefix hbreaks
  rcases List.prefix_concat_iff.mp hprefix with heq | hprefix
  · obtain ⟨rfl, hlast⟩ := List.append_inj' heq rfl
    obtain rfl := List.singleton_inj.mp hlast
    exact hk hbreaks
  · exact h before k' hprefix hbreaks

theorem BreaksOutside.append (h : BreaksOutside kinds)
    (hmore : ∀ k ∈ more, k ≠ newline ∧ k ≠ indent) : BreaksOutside (kinds ++ more) := by
  induction more generalizing kinds with
  | nil => simpa using h
  | cons k more ih =>
    obtain ⟨hk, hmore⟩ := List.forall_mem_cons.mp hmore
    have hnext := ih (h.push fun hbreaks => (not_or.mpr hk hbreaks).elim) hmore
    simpa using hnext

end TokenKind

namespace Reading

/-- The reading counts its brackets and has reported those that do not fit. -/
structure CountsBrackets (r : Reading) : Prop where
  stack : r.layout.openBrackets = openBrackets r.transcript.kinds
  faults : (∀ f ∈ r.transcript.faults.toList, f.cause.isPlain = true) ↔
    BracketMark.Fits [] (marks r.transcript.kinds)
  breaks : BreaksOutside r.transcript.kinds

variable {r : Reading}

theorem countsBrackets_start (text : List Char) : (start text).CountsBrackets :=
  ⟨rfl, iff_of_true (by simp [start, Transcript.start]) trivial, breaksOutside_nil⟩

/-- The causes of the faults among pieces. -/
theorem cause_faults (c : Cursor) (ps : List Piece) (P : LexicalCause → Prop) :
    (∀ f ∈ c.faults ps, P f.cause) ↔ ∀ cause n, .fault cause n ∈ ps → P cause := by
  induction ps generalizing c with
  | nil => simp [Cursor.faults]
  | cons p ps ih => cases p <;> simp [Cursor.faults, ih, or_imp, forall_and]

theorem CountsBrackets.breaks_round (h : r.CountsBrackets) (hrest : r.rest ≠ []) :
    BreaksOutside r.round.transcript.kinds := by
  have hform := Round.next_form r.layout hrest
  have hkinds := kinds_round r
  have hcount := (Round.countsBrackets_next r.layout r.transcript.cursor).stack
  generalize Round.next r.layout r.transcript.cursor = next at hform hkinds hcount
  rw [hkinds]
  have hword {ps : List Piece} (hps : ∀ p ∈ ps, p.inLine = true) :
      ∀ k ∈ Piece.kinds ps, k ≠ newline ∧ k ≠ indent := by
    intro k hk
    have hflat := Piece.isStructural_of_mem_kinds hps k hk
    constructor <;> rintro rfl <;> exact nomatch hflat
  cases hform with
  | blank => exact h.breaks.append (by simp [Piece.kinds])
  | indented begins =>
    have hclosed : openBrackets r.transcript.kinds = [] := by
      rw [← h.stack, Layout.openBrackets, List.map_eq_nil_iff]
      exact List.isEmpty_iff.mp (Bool.and_eq_true_iff.mp begins).2
    by_cases hopens : r.layout.levels.headD 0 < blankLength r.transcript.cursor.rest
    · rw [Reindent.ofWidth_opens hopens, kinds_indentation_opens]
      exact h.breaks.push fun _ => hclosed
    · obtain ⟨closes, consistent, -, heq⟩ := ofWidth_closes hopens
      rw [heq, kinds_indentation_closes]
      exact h.breaks.append (by simp +contextual)
  | within inside modes brackets inLine => exact h.breaks.append (hword inLine)
  | @ended inside closed pieces length inLine =>
    rw [Piece.kinds_append, ← List.append_assoc]
    refine (h.breaks.append (hword inLine)).push fun _ => ?_
    have hnewline : marks (Piece.kinds (pieces ++ [.token .newline length])) =
        marks (Piece.kinds pieces) := by
      rw [Piece.kinds_append, marks_append]
      exact List.append_nil _
    rw [hnewline, h.stack] at hcount
    rw [openBrackets_append, ← hcount]
    exact List.map_eq_nil_iff.mpr closed

theorem CountsBrackets.round (h : r.CountsBrackets) (hrest : r.rest ≠ []) :
    r.round.CountsBrackets := by
  have hnext := Round.countsBrackets_next r.layout r.transcript.cursor
  have hkinds := kinds_round r
  constructor
  case stack =>
    rw [hkinds, openBrackets_append, ← h.stack]
    exact hnext.stack
  case faults =>
    rw [faults_round, List.forall_mem_append, cause_faults _ _ (·.isPlain = true), h.faults,
      hnext.faults, hkinds, marks_append, BracketMark.fits_append, h.stack, openBrackets]
  case breaks => exact h.breaks_round hrest

theorem kinds_finish (r : Reading) : r.finish.kinds = r.transcript.kinds ++ r.endMarks := by
  rw [Transcript.kinds, tokens_finish, List.map_append, List.map_map]
  simp [Transcript.kinds, Token.mark, Function.comp_def]

theorem marks_endMarks (r : Reading) : marks r.endMarks = [] :=
  marks_eq_nil (forall_mem_endMarks (P := (·.bracketMark? = none)) rfl rfl rfl r)

theorem marks_finish (r : Reading) : marks r.finish.kinds = marks r.transcript.kinds := by
  rw [kinds_finish, marks_append, marks_endMarks, List.append_nil]

/-- The brackets of a whole text are matched if no fault concerns one: those before its end are
counted, and those open at its end are reported. -/
theorem CountsBrackets.matched_finish (h : r.CountsBrackets) :
    (∀ f ∈ r.finish.faults.toList, f.cause.isPlain = true) ↔ Matched (marks r.finish.kinds) := by
  have hunclosed : (∀ f ∈ r.layout.brackets.reverse.map unclosed, f.cause.isPlain = true) ↔
      openBrackets r.transcript.kinds = [] := by
    rw [← h.stack, Layout.openBrackets]
    cases r.layout.brackets <;> simp [unclosed, LexicalCause.isPlain]
  rw [faults_finish, List.forall_mem_append, h.faults, hunclosed, marks_finish,
    BracketMark.matched_iff, openBrackets]

/-- The lines and blocks of a whole text break outside brackets; the marks behind its end carry no
text. -/
theorem CountsBrackets.breaks_finish (h : r.CountsBrackets) {i : Nat} {t : Token}
    (hi : r.finish.tokens.toList[i]? = some t)
    (hbreaks : t.kind = newline ∧ t.text ≠ "" ∨ t.kind = indent) :
    openBrackets ((r.finish.tokens.toList.take i).map (·.kind)) = [] := by
  rw [tokens_finish] at hi ⊢
  rcases Nat.lt_or_ge i r.transcript.tokens.toList.length with hlt | hge
  · rw [List.getElem?_append_left hlt] at hi
    rw [List.take_append_of_le_length hlt.le]
    have hprefix : (r.transcript.tokens.toList.take i).map (·.kind) ++ [t.kind] <+:
        r.transcript.kinds := by
      have htake := (r.transcript.tokens.toList.take_prefix (i + 1)).map (·.kind)
      rw [List.take_add_one, hi, List.map_append] at htake
      exact htake
    exact h.breaks _ t.kind hprefix (hbreaks.imp_left And.left)
  · rw [List.getElem?_append_right hge] at hi
    obtain ⟨k, hk, rfl⟩ := List.mem_map.mp (List.mem_of_getElem? hi)
    rcases hbreaks with ⟨-, htext⟩ | hindent
    · exact absurd rfl htext
    · obtain rfl : k = indent := hindent
      exact absurd hk (by simp [endMarks])

theorem countsBrackets_transcribe (text : List Char) :
    ((∀ f ∈ (transcribe text).faults.toList, f.cause.isPlain = true) ↔
        Matched (marks (transcribe text).kinds)) ∧
      ∀ (i : Nat) (t : Token), (transcribe text).tokens.toList[i]? = some t →
        t.kind = newline ∧ t.text ≠ "" ∨ t.kind = indent →
        openBrackets (((transcribe text).tokens.toList.take i).map (·.kind)) = [] := by
  obtain ⟨r, h, -, heq⟩ := transcribe_induction (countsBrackets_start text)
    fun r hrest h => h.round hrest
  rw [heq]
  exact ⟨h.matched_finish, fun i t => h.breaks_finish⟩

end Reading

/-- The message speaks of a mismatched, an unmatched or an unclosed bracket. -/
def LexicalCause.speaksOfBracket (message : String) : Bool :=
  ["mismatched ", "unmatched ", "unclosed "].any fun word => word.toList.isPrefixOf message.toList

/-- Messages about brackets are told apart from all others by their first words. -/
theorem LexicalCause.speaksOfBracket_message (cause : LexicalCause) :
    speaksOfBracket cause.message = !cause.isPlain := by
  cases cause with
  | unexpectedCharacter c =>
    change speaksOfBracket ("unexpected character '" ++ toString c ++ "'") = false
    simp [speaksOfBracket, List.isPrefixOf]
  | unknownLanguage name =>
    change speaksOfBracket ("unknown embedded language '" ++ toString name ++ "'") = false
    simp [speaksOfBracket, List.isPrefixOf]
  | unclosedBracket b | unmatchedBracket b => cases b <;> decide +kernel
  | mismatchedBracket found expected => cases found <;> cases expected <;> decide +kernel
  | _ => decide +kernel

/-- Reading reports no bracket if and only if the brackets among the tokens are matched. Lines end
and blocks begin where no bracket is open; only the end of the text ends a line within one. -/
theorem brackets_matched (source : String) (file : Option String) :
    let text := TokenizedText.ofLabelledSource source file
    ((∀ e ∈ text.errors, LexicalCause.speaksOfBracket e.message = false) ↔
        Matched (marks (text.tokens.map (·.kind)))) ∧
      ∀ (i : Nat) (t : Token), text.tokens[i]? = some t →
        t.kind = newline ∧ t.text ≠ "" ∨ t.kind = indent →
        openBrackets ((text.tokens.take i).map (·.kind)) = [] := by
  obtain ⟨hmatched, hbreaks⟩ := Reading.countsBrackets_transcribe source.toList
  refine ⟨?_, hbreaks⟩
  rw [Transcript.kinds] at hmatched
  simpa [TokenizedText.ofLabelledSource, LexicalFault.toError,
    LexicalCause.speaksOfBracket_message] using hmatched

/-- A block begins, and a line ends, behind a list that goes over two lines. -/
theorem brackets_matched_list :
    let tokens := (TokenizedText.ofLabelledSource "k:\n  [a,\n b]\n" none).tokens
    Matched (marks (tokens.map (·.kind))) ∧
      openBrackets ((tokens.take 3).map (·.kind)) = [] ∧
      openBrackets ((tokens.take 9).map (·.kind)) = [] := by
  obtain ⟨hmatched, hbreaks⟩ := brackets_matched "k:\n  [a,\n b]\n" none
  exact ⟨hmatched.mp (by decide +kernel),
    hbreaks 3 ⟨.indent, "  ", ⟨2, 1, 3⟩, ⟨2, 3, 5⟩⟩ (by decide +kernel) (.inr rfl),
    hbreaks 9 ⟨.newline, "\n", ⟨3, 4, 12⟩, ⟨4, 1, 13⟩⟩ (by decide +kernel)
      (.inl ⟨rfl, by decide⟩)⟩

end AgentScript
