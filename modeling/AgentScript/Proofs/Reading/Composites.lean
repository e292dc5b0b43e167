import AgentScript.Proofs.LineEnds.Transcripts
import AgentScript.Proofs.Reading.LineStructure

/-!
# Composite lexemes

Most tokens stand alone. A type tag, a multi-line string and embedded code are read as several
tokens that belong together: every round adds whole phrases to the tokens, so the tokens of a text
are one phrase after another.
-/
namespace AgentScript

open CharClass Lexeme

/-- A token of a known kind. -/
abbrev TokenOf (kind : TokenKind) := {t : Token // t.kind = kind}

/-- The tokens between the angle brackets of a type tag. -/
structure TagBody where
  name : Option (TokenOf .typeTagName)
  value : Option (TokenOf .typeTagValue)
  /-- A bar, and the modifier behind it. -/
  modifier : Option (TokenOf .pipe × Option (TokenOf .typeTagModifier))

namespace TagBody

def modifierTokens (b : TagBody) : List Token :=
  match b.modifier with
  | none => []
  | some (bar, text) => bar.1 :: (text.map (·.1)).toList

def tokens (b : TagBody) : List Token :=
  (b.name.map (·.1)).toList ++ ((b.value.map (·.1)).toList ++ b.modifierTokens)

end TagBody

namespace TokenKind

/-- Whether a token of the kind is read by itself. -/
def standsAlone : TokenKind → Bool
  | lt | typeTagName | typeTagValue | typeTagModifier => false
  | multiline _ | stringContent => false
  | embeddedMarker | embeddedBlockMarker | embeddedCode => false
  | _ => true

/-- The kind of the lines that a marker captures below its own. -/
def captures? : TokenKind → Option TokenKind
  | multiline _ => some stringContent
  | embeddedBlockMarker => some embeddedCode
  | _ => none

/-- Tokens that only stand behind the one that introduces them. -/
def isContinuation : TokenKind → Bool
  | typeTagName | typeTagValue | typeTagModifier | stringContent | embeddedCode => true
  | _ => false

end TokenKind

/-- Tokens that are read together, where `reported` tells at which points a tag is reported as
unterminated. -/
inductive IsPhrase (reported : Position → Prop) : List Token → Prop
  | single {t : Token} (alone : t.kind.standsAlone = true) : IsPhrase reported [t]
  | tag (lt : TokenOf .lt) (body : TagBody) (gt : TokenOf .gt) :
      IsPhrase reported (lt.1 :: (body.tokens ++ [gt.1]))
  | unterminated (lt : TokenOf .lt) (body : TagBody) (here : reported lt.1.start) :
      IsPhrase reported (lt.1 :: body.tokens)
  | captured {marker : Token} {content : TokenKind} (opens : marker.kind.captures? = some content)
      {lines : List Token} (same : ∀ t ∈ lines, t.kind = content) :
      IsPhrase reported (marker :: lines)
  | expression (marker : TokenOf .embeddedMarker) (code : Option (TokenOf .embeddedCode)) :
      IsPhrase reported (marker.1 :: (code.map (·.1)).toList)

theorem IsPhrase.mono {reported reported' : Position → Prop} {ts : List Token}
    (h : IsPhrase reported ts) (himp : ∀ p, reported p → reported' p) : IsPhrase reported' ts := by
  cases h with
  | single alone => exact .single alone
  | tag lt body gt => exact .tag lt body gt
  | unterminated lt body here => exact .unterminated lt body (himp _ here)
  | captured opens same => exact .captured opens same
  | expression marker code => exact .expression marker code

namespace Cursor

/-- The tokens among the pieces before a cursor. -/
def tokens : Cursor → List Piece → List Token
  | _, [] => []
  | c, .token kind n :: ps =>
    ⟨kind, String.ofList (c.rest.take n), c.position, (c.advance n).position⟩ ::
      (c.advance n).tokens ps
  | c, .skip n :: ps => (c.advance n).tokens ps
  | c, .fault _ _ :: ps => c.tokens ps

/-- The faults among the pieces before a cursor. -/
def faults : Cursor → List Piece → List LexicalFault
  | _, [] => []
  | c, .fault cause n :: ps => ⟨cause, c.position, n⟩ :: c.faults ps
  | c, .token _ n :: ps | c, .skip n :: ps => (c.advance n).faults ps

variable {c : Cursor}

@[simp] theorem tokens_nil : c.tokens [] = [] := rfl

@[simp] theorem tokens_skip (n : Nat) (ps : List Piece) :
    c.tokens (.skip n :: ps) = (c.advance n).tokens ps := rfl

@[simp] theorem tokens_fault (cause : LexicalCause) (n : Nat) (ps : List Piece) :
    c.tokens (.fault cause n :: ps) = c.tokens ps := rfl

@[simp] theorem tokens_append (ps qs : List Piece) :
    c.tokens (ps ++ qs) = c.tokens ps ++ (c.advance (Piece.total ps)).tokens qs := by
  induction ps generalizing c with
  | nil => rfl
  | cons p ps ih => cases p <;> simp [tokens, ih, Piece.width, advance_add]

@[simp] theorem faults_append (ps qs : List Piece) :
    c.faults (ps ++ qs) = c.faults ps ++ (c.advance (Piece.total ps)).faults qs := by
  induction ps generalizing c with
  | nil => rfl
  | cons p ps ih => cases p <;> simp [faults, ih, Piece.width, advance_add]

end Cursor

namespace Transcript

theorem tokens_extendAll (t : Transcript) (ps : List Piece) :
    (t.extendAll ps).tokens.toList = t.tokens.toList ++ t.cursor.tokens ps := by
  induction ps generalizing t with
  | nil => simp
  | cons p ps ih => rw [extendAll_cons, ih]; cases p <;> simp [extend, Cursor.tokens]

theorem faults_extendAll (t : Transcript) (ps : List Piece) :
    (t.extendAll ps).faults.toList = t.faults.toList ++ t.cursor.faults ps := by
  induction ps generalizing t with
  | nil => simp [Cursor.faults]
  | cons p ps ih => rw [extendAll_cons, ih]; cases p <;> simp [extend, Cursor.faults]

end Transcript

namespace Reading

theorem round_of_next {r : Reading} {a : Round}
    (h : Round.next r.layout r.transcript.cursor = a) :
    r.round = ⟨a.layout, r.transcript.extendAll a.pieces⟩ := by
  rw [← h]
  rfl

theorem cursor_round (r : Reading) : r.round.transcript.cursor = r.transcript.cursor.advance
    (Piece.total (Round.next r.layout r.transcript.cursor).pieces) :=
  Transcript.extendAll_cursor _ _

theorem tokens_round (r : Reading) : r.round.transcript.tokens.toList =
    r.transcript.tokens.toList ++
      r.transcript.cursor.tokens (Round.next r.layout r.transcript.cursor).pieces :=
  Transcript.tokens_extendAll _ _

theorem faults_round (r : Reading) : r.round.transcript.faults.toList =
    r.transcript.faults.toList ++
      r.transcript.cursor.faults (Round.next r.layout r.transcript.cursor).pieces :=
  Transcript.faults_extendAll _ _

end Reading

/-- A fault reports an unterminated tag at a point. -/
def ReportsTag (faults : List LexicalFault) (p : Position) : Prop :=
  ∃ f ∈ faults, f.cause = .unterminatedTypeTag ∧ f.position = p

/-- Tokens that are one phrase after another. -/
def Phrased (tokens : List Token) (faults : List LexicalFault) : Prop :=
  ∃ phrases : List (List Token), tokens = phrases.flatten ∧
    ∀ p ∈ phrases, IsPhrase (ReportsTag faults) p

variable {tokens tokens' : List Token} {faults faults' : List LexicalFault}

theorem phrased_nil (faults : List LexicalFault) : Phrased [] faults := ⟨[], rfl, nofun⟩

theorem IsPhrase.phrased (h : IsPhrase (ReportsTag faults) tokens) : Phrased tokens faults :=
  ⟨[tokens], by simp, by simpa using h⟩

theorem Phrased.append (h : Phrased tokens faults) (h' : Phrased tokens' faults') :
    Phrased (tokens ++ tokens') (faults ++ faults') := by
  obtain ⟨ps, rfl, hps⟩ := h
  obtain ⟨qs, rfl, hqs⟩ := h'
  refine ⟨ps ++ qs, by simp, fun p hp => ?_⟩
  rcases List.mem_append.mp hp with hp | hp
  · exact (hps p hp).mono fun _ ⟨f, hf, hcause⟩ => ⟨f, List.mem_append_left _ hf, hcause⟩
  · exact (hqs p hp).mono fun _ ⟨f, hf, hcause⟩ => ⟨f, List.mem_append_right _ hf, hcause⟩

/-- Tokens that each stand alone. -/
theorem phrased_of_standsAlone (h : ∀ t ∈ tokens, t.kind.standsAlone = true)
    (faults : List LexicalFault) : Phrased tokens faults := by
  refine ⟨tokens.map ([·]), by simp [← List.flatMap_def], fun p hp => ?_⟩
  obtain ⟨t, ht, rfl⟩ := List.mem_map.mp hp
  exact .single (h t ht)

namespace Piece

/-- The pieces give whole phrases, wherever they stand. -/
def Phrases (ps : List Piece) : Prop := ∀ c : Cursor, Phrased (c.tokens ps) (c.faults ps)

variable {ps qs : List Piece}

theorem Phrases.append (h : Phrases ps) (h' : Phrases qs) : Phrases (ps ++ qs) := fun c => by
  simpa using (h c).append (h' _)

theorem kinds_tokens (c : Cursor) (ps : List Piece) : (c.tokens ps).map (·.kind) = kinds ps := by
  induction ps generalizing c with
  | nil => rfl
  | cons p ps ih => cases p <;> simp [Cursor.tokens, kinds] <;> exact ih _

/-- Pieces all of whose tokens stand alone. -/
theorem phrases_of_standsAlone (h : ∀ k ∈ kinds ps, k.standsAlone = true) : Phrases ps := by
  intro c
  refine phrased_of_standsAlone (fun t ht => h _ ?_) _
  rw [← kinds_tokens c]
  exact List.mem_map_of_mem ht

theorem phrases_single {kind : TokenKind} (h : kind.standsAlone = true) (n : Nat) :
    Phrases [.token kind n] := phrases_of_standsAlone (by simpa [kinds] using h)

end Piece

open Piece

namespace Lexeme

/-- A token where there is something to read. -/
theorem tokens_tokenOf (kind : TokenKind) (length : List Char → Nat) (text : List Char)
    (c : Cursor) : ∃ o : Option (TokenOf kind),
      c.tokens (Scanner.tokenOf kind length text) = (o.map (·.1)).toList := by
  unfold Scanner.tokenOf
  split_ifs
  · exact ⟨none, rfl⟩
  · exact ⟨some ⟨_, rfl⟩, rfl⟩

theorem tokens_tagText (kind : TokenKind) (isDelimiter : Char → Bool) (text : List Char)
    (c : Cursor) : ∃ o : Option (TokenOf kind),
      c.tokens (tagText kind isDelimiter text) = (o.map (·.1)).toList := by
  unfold tagText
  dsimp only
  split_ifs
  · exact ⟨none, rfl⟩
  · exact ⟨some ⟨_, rfl⟩, rfl⟩

theorem tokens_tagModifier (text : List Char) (c : Cursor) :
    ∃ o : Option (TokenOf .pipe × Option (TokenOf .typeTagModifier)),
      c.tokens (tagModifier text) = (TagBody.mk none none o).modifierTokens := by
  unfold tagModifier
  split
  · next rest =>
    obtain ⟨o, ho⟩ := tokens_tagText .typeTagModifier endsModifier
      (rest.drop (blankLength rest)) ((c.advance 1).advance (blankLength rest))
    refine ⟨some (⟨⟨.pipe, String.ofList (c.rest.take 1), c.position, (c.advance 1).position⟩, rfl⟩,
      o), ?_⟩
    simp [Scanner.sequence, Scanner.andThen, Scanner.skipping, Cursor.tokens, Piece.width, ho,
      TagBody.modifierTokens]
  · exact ⟨none, rfl⟩

theorem tokens_typeName (text : List Char) (c : Cursor) :
    ∃ o : Option (TokenOf .typeTagName),
      c.tokens (typeName .typeTag text) = (o.map (·.1)).toList := tokens_tokenOf _ _ _ _

/-- A tag up to its end: the bracket and the parts behind it, of which the name stands behind
blanks. -/
theorem tokens_openTag (text : List Char) (c : Cursor) :
    ∃ (lt : TokenOf .lt) (body : TagBody), lt.1.start = c.position ∧
      lt.1.stop = (c.advance 1).position ∧
      (body.name.map (·.1)).toList = ((c.advance 1).advance (blankLength (text.drop 1))).tokens
        (typeName .typeTag ((text.drop 1).drop (blankLength (text.drop 1)))) ∧
      c.tokens (openTag .typeTag text) = lt.1 :: body.tokens := by
  choose name hname using tokens_typeName
  choose value hvalue using tokens_tagText .typeTagValue endsTagValue
  choose modifier hmodifier using tokens_tagModifier
  simp only [openTag, Scanner.sequence, Scanner.andThen, Scanner.skipping, List.cons_append,
    List.nil_append, List.append_nil, Cursor.tokens, Cursor.tokens_append, hname, hvalue, hmodifier]
  exact ⟨⟨_, rfl⟩, ⟨_, _, _⟩, rfl, rfl, rfl, rfl⟩

/-- A tag is one phrase; where it is not closed, it is reported at its beginning. -/
theorem phrases_typeTag (text : List Char) : Phrases (typeTag .typeTag text) := by
  intro c
  obtain ⟨lt, body, hstart, -, -, htokens⟩ := tokens_openTag text c
  unfold typeTag
  dsimp only
  split
  · rw [Cursor.tokens_append, htokens]
    exact (IsPhrase.tag lt body ⟨_, rfl⟩).phrased
  · rw [Cursor.tokens_fault, htokens]
    exact (IsPhrase.unterminated lt body ⟨_, List.mem_cons_self, rfl, hstart.symm⟩).phrased

theorem kinds_capturedLines (content : TokenKind) (base fuel : Nat) (text : List Char) :
    ∀ k ∈ kinds (capturedLines content base fuel text), k = content := by
  induction fuel generalizing text with
  | zero => exact nofun
  | succ fuel ih =>
    by_cases h : (text.isEmpty || !captures base text) = true
    · simp [capturedLines, h, kinds]
    · simpa [capturedLines, h, kinds] using ih _

theorem kinds_capturedBlock (content : TokenKind) (base : Nat) (text : List Char) :
    ∀ k ∈ kinds (capturedBlock content base text), k = content := by
  have hlines (fuel : Nat) (rest : List Char) := kinds_capturedLines content base fuel rest
  cases h : restIsBlank text <;> simpa [capturedBlock, h, kinds] using hlines _ _

/-- A marker and the lines that it captures are one phrase. -/
theorem phrases_captured {kind content : TokenKind} (h : kind.captures? = some content)
    {n : Nat} {ps : List Piece} (hps : ∀ k ∈ kinds ps, k = content) :
    Phrases (.token kind n :: ps) := by
  intro c
  refine (IsPhrase.captured h fun t ht => hps _ ?_).phrased
  rw [← kinds_tokens (c.advance n)]
  exact List.mem_map_of_mem ht

/-- An inline marker and its code are one phrase. -/
theorem phrases_inlineCode (n : Nat) (text : List Char) :
    Phrases (.token .embeddedMarker n :: inlineCode text) := by
  intro c
  choose code hcode using tokens_tokenOf .embeddedCode (codeLength none)
  simp only [inlineCode, Scanner.andThen, Scanner.skipping, Cursor.tokens, List.cons_append,
    List.nil_append, hcode]
  exact (IsPhrase.expression ⟨_, rfl⟩ _).phrased

theorem phrases_embedded (form : MarkerForm) (base : Nat) (text : List Char) :
    Phrases (embedded form base text) := by
  have hfault : Phrases (if isKnownLanguage (String.ofList (markerLanguage text)) then [] else
      [.fault (.unknownLanguage (String.ofList (markerLanguage text))) (markerLength text)]) :=
    phrases_of_standsAlone (by split_ifs <;> simp [kinds])
  unfold embedded Scanner.andThen marker
  dsimp only
  rw [List.append_assoc]
  refine hfault.append ?_
  cases form with
  | inline => exact phrases_inlineCode _ _
  | block => exact phrases_captured rfl (kinds_capturedBlock _ _ _)

end Lexeme

theorem TokenKind.standsAlone_of_isWordlike {k : TokenKind} (h : k.isWordlike = true) :
    k.standsAlone = true := by
  cases k <;> simp_all [standsAlone, isWordlike]

/-- The modes are not those of a type tag. -/
def ModeStack.OutsideTags (s : ModeStack) : Prop := ∀ m ∈ s.entered, m ≠ .typeTag

namespace ModeStack

variable {s : ModeStack}

theorem OutsideTags.current (h : s.OutsideTags) : s.current ≠ .typeTag := by
  unfold ModeStack.current
  cases hhead : s.entered.head? with
  | none => exact nofun
  | some m => exact h m (List.mem_of_head? hhead)

theorem OutsideTags.prefersTypeNames (h : s.OutsideTags) : s.current.prefersTypeNames = false :=
  Mode.prefersTypeNames_eq_false h.current

theorem OutsideTags.push (h : s.OutsideTags) {m : Mode} (hm : m ≠ .typeTag) :
    (s.push m).OutsideTags := List.forall_mem_cons.mpr ⟨hm, h⟩

theorem OutsideTags.popIf (h : s.OutsideTags) (m : Mode) : (s.popIf m).2.OutsideTags := by
  unfold ModeStack.popIf
  split_ifs
  · exact fun m hm => h m (List.mem_of_mem_tail hm)
  · exact h

theorem OutsideTags.endLine (h : s.OutsideTags) : s.endLine.OutsideTags :=
  fun m hm => h m ((List.dropWhile_sublist _).mem hm)

end ModeStack

namespace Round

theorem standsAlone_indentation (r : Reindent) (width : Nat) :
    ∀ k ∈ kinds (indentation r width), k.standsAlone = true := by
  unfold indentation
  split_ifs <;> simp +contextual [kinds, TokenKind.standsAlone]

/-- A round that gives whole phrases and leaves no type tag open. -/
structure ReadsPhrases (r : Round) : Prop where
  phrases : Phrases r.pieces
  modes : r.layout.modes.OutsideTags

variable {l : Layout} {text : List Char} {c : Char}

theorem readsPhrases_standsAlone {pieces : List Piece} (hl : l.modes.OutsideTags)
    (h : ∀ k ∈ kinds pieces, k.standsAlone = true) : ReadsPhrases ⟨pieces, l⟩ :=
  ⟨phrases_of_standsAlone h, hl⟩

section

variable (hl : l.modes.OutsideTags)

include hl

theorem readsPhrases_single {kind : TokenKind} (h : kind.standsAlone = true) (n : Nat) :
    ReadsPhrases (single l kind n) := ⟨phrases_single h n, hl⟩

theorem readsPhrases_unexpected (c : Char) : ReadsPhrases (unexpected l c) :=
  readsPhrases_standsAlone hl (by simp [kinds])

theorem readsPhrases_endLine (n : Nat) : ReadsPhrases (endLine l n) := by
  unfold endLine
  split_ifs
  · exact ⟨phrases_single rfl n, hl.endLine⟩
  · exact readsPhrases_standsAlone hl (by simp [kinds])

theorem readsPhrases_thenEndLine {pieces : List Piece} (h : Phrases pieces) :
    ReadsPhrases (thenEndLine pieces l) :=
  have hend := readsPhrases_endLine hl 0
  ⟨h.append hend.phrases, hend.modes⟩

theorem readsPhrases_embeddedCode (text : List Char) : ReadsPhrases (embeddedCode l text) := by
  unfold embeddedCode
  split
  · exact readsPhrases_standsAlone hl (by simp [kinds])
  · exact ⟨phrases_embedded .inline l.lineWidth text, hl⟩
  · exact readsPhrases_thenEndLine hl (phrases_embedded _ _ _)

theorem readsPhrases_bar (c : Char) (text : List Char) : ReadsPhrases (bar l c text) := by
  unfold bar
  split
  · exact readsPhrases_unexpected hl c
  · split_ifs
    · exact readsPhrases_thenEndLine hl (phrases_captured rfl (kinds_capturedBlock _ _ _))
    · exact readsPhrases_single hl rfl 1
    · exact readsPhrases_unexpected hl c

theorem outsideTags_afterColon (rest : List Char) : (afterColon l rest).modes.OutsideTags := by
  have hpop : (l.popModeIf .sectionName).modes.OutsideTags := hl.popIf _
  unfold afterColon
  dsimp only
  split_ifs
  · exact hpop.push (by decide)
  · exact hpop

theorem readsPhrases_colon (previous : Option Char) (text : List Char) :
    ReadsPhrases (colon l previous text) := by
  unfold colon
  split_ifs
  · exact readsPhrases_single hl rfl _
  · exact ⟨phrases_single rfl 1, outsideTags_afterColon hl _⟩

theorem readsPhrases_dash (text : List Char) : ReadsPhrases (dash l text) := by
  unfold dash
  split
  · exact readsPhrases_single hl rfl 1
  · exact readsPhrases_single hl rfl 2
  · split_ifs
    · exact readsPhrases_standsAlone hl (by simp [number, kinds, TokenKind.standsAlone])
    · exact readsPhrases_single hl rfl 1
    · exact readsPhrases_unexpected hl '-'

theorem readsPhrases_properWord (text : List Char) : ReadsPhrases (properWord l text) := by
  obtain ⟨kind, n, heq, hkind, -⟩ := exists_single_properWord l text
  rw [heq]
  exact readsPhrases_single hl (TokenKind.standsAlone_of_isWordlike hkind) n

theorem readsPhrases_word (text : List Char) : ReadsPhrases (word l text) := by
  refine ⟨phrases_single
    (TokenKind.standsAlone_of_isWordlike (Mode.isWordlike_wordKind hl.prefersTypeNames _)) _, ?_⟩
  unfold word
  dsimp only
  split_ifs
  · exact hl.push (by decide)
  · exact hl

theorem readsPhrases_closeBracket (b : Bracket) : ReadsPhrases (closeBracket l b) := by
  refine ⟨phrases_of_standsAlone ?_, hl⟩
  unfold closeBracket
  dsimp only
  split
  · simp [kinds, TokenKind.standsAlone]
  · split_ifs <;> simp [kinds, TokenKind.standsAlone]

theorem readsPhrases_beginLine (text : List Char) : ReadsPhrases (beginLine l text) := by
  refine beginLine_cases l text (fun _ => ?_) fun _ => ?_
  · exact readsPhrases_standsAlone hl (by simp [kinds])
  · exact ⟨phrases_of_standsAlone (standsAlone_indentation _ _), hl⟩

theorem readsPhrases_within (previous : Option Char) (p : Position) (c : Char) (text : List Char) :
    ReadsPhrases (within l previous p c text) := by
  refine within_cases l previous p c text ?space ?lineBreak ?comment ?string ?tag ?code ?bar ?colon
    ?dash ?opening ?closing ?mark ?number ?proper ?word ?other
  case space => exact fun _ => readsPhrases_standsAlone hl (by simp [kinds])
  case lineBreak => exact fun _ => readsPhrases_endLine hl _
  case comment => exact fun _ => readsPhrases_standsAlone hl (by simp [kinds])
  case string =>
    intro _
    refine readsPhrases_standsAlone hl ?_
    unfold quotedString
    dsimp only
    split_ifs <;> simp [kinds, TokenKind.standsAlone]
  case tag =>
    refine fun _ => ⟨?_, hl⟩
    dsimp only
    exact phrases_typeTag text
  case code => exact fun _ => readsPhrases_embeddedCode hl text
  case bar => exact readsPhrases_bar hl c text
  case colon => exact fun _ => readsPhrases_colon hl previous text
  case dash => exact fun _ => readsPhrases_dash hl text
  case opening => exact fun b _ => ⟨phrases_single rfl 1, hl⟩
  case closing => exact fun b _ => readsPhrases_closeBracket hl b
  case mark =>
    have hmark : ∀ kind ∈ [TokenKind.comma, .dot, .slash, .gt], kind.standsAlone = true := by decide
    exact fun kind hk => readsPhrases_single hl (hmark kind hk) 1
  case number =>
    exact fun _ => readsPhrases_standsAlone hl (by simp [number, kinds, TokenKind.standsAlone])
  case proper => exact fun _ => readsPhrases_properWord hl text
  case word => exact fun _ => readsPhrases_word hl text
  case other => exact readsPhrases_unexpected hl c

/-- Every round gives whole phrases, and no round ends within a type tag. -/
theorem readsPhrases_next (cursor : Cursor) : ReadsPhrases (next l cursor) := by
  refine next_cases l cursor (fun _ => ?_) (fun _ => readsPhrases_beginLine hl _)
    fun c rest _ _ => readsPhrases_within hl _ _ c _
  exact readsPhrases_standsAlone hl (by simp [kinds])

end

end Round

namespace Reading

/-- The tokens read so far are whole phrases, and no type tag is open. -/
structure InPhrases (r : Reading) : Prop where
  phrased : Phrased r.transcript.tokens.toList r.transcript.faults.toList
  modes : r.layout.modes.OutsideTags

theorem inPhrases_start (text : List Char) : (start text).InPhrases :=
  ⟨phrased_nil _, nofun⟩

theorem InPhrases.round {r : Reading} (h : r.InPhrases) : r.round.InPhrases := by
  have hnext := Round.readsPhrases_next h.modes r.transcript.cursor
  refine ⟨?_, hnext.modes⟩
  change Phrased (r.transcript.extendAll _).tokens.toList (r.transcript.extendAll _).faults.toList
  rw [Transcript.tokens_extendAll, Transcript.faults_extendAll]
  exact h.phrased.append (hnext.phrases _)

theorem standsAlone_of_mem_endMarks : ∀ r : Reading, ∀ k ∈ r.endMarks, k.standsAlone = true :=
  forall_mem_endMarks rfl rfl rfl

/-- The tokens of a text are one phrase after another. -/
theorem phrased_transcribe (text : List Char) :
    Phrased (transcribe text).tokens.toList (transcribe text).faults.toList := by
  obtain ⟨r, h, -, heq⟩ := transcribe_induction (P := InPhrases) (inPhrases_start text)
    fun r _ h => h.round
  rw [heq, tokens_finish, faults_finish]
  refine h.phrased.append (phrased_of_standsAlone (fun t ht => ?_) _)
  obtain ⟨k, hk, rfl⟩ := List.mem_map.mp ht
  exact standsAlone_of_mem_endMarks r k hk

end Reading

end AgentScript
