import AgentScript.Proofs.Reading.Coverage
import AgentScript.Proofs.Reading.LineStructure

/-!
# Blocks begin with text

An indentation is read before text that is neither blank nor a comment. The next round
answers such text with a token of the line or with a fault, so in a text without faults the
token after an indentation is never a layout token.
-/
namespace AgentScript

open CharClass TokenKind

/-- The piece is a token of a line, or a fault. -/
def Piece.shows : Piece → Bool
  | .token kind _ => !kind.isStructural
  | .fault _ _ => true
  | .skip _ => false

/-- The character can neither be blank, nor begin a comment or a line break. -/
structure CharClass.Significant (c : Char) : Prop where
  notSpace : isInlineSpace c = false
  notBreak : isLineBreak c = false
  notComment : c ≠ '#'

namespace Round

open Lexeme

theorem shows_typeTag (mode : Mode) (text : List Char) :
    (typeTag mode text).head?.any Piece.shows = true := by
  unfold typeTag
  dsimp only
  split
  · rfl
  · rfl

theorem shows_quotedString (text : List Char) :
    (quotedString text).head?.any Piece.shows = true := by
  unfold quotedString
  dsimp only
  split_ifs
  · rfl
  · rfl

theorem shows_marker (form : MarkerForm) (text : List Char) :
    (marker form text).head?.any Piece.shows = true := by
  unfold marker
  dsimp only
  split_ifs
  · cases form <;> rfl
  · rfl

/-- What comes behind a piece that shows hides nothing. -/
theorem shows_append {ps : List Piece} (h : ps.head?.any Piece.shows = true) (qs : List Piece) :
    (ps ++ qs).head?.any Piece.shows = true := by
  cases ps with
  | nil => exact nomatch h
  | cons p ps => exact h

theorem shows_embeddedCode (l : Layout) (text : List Char) :
    (embeddedCode l text).pieces.head?.any Piece.shows = true := by
  unfold embeddedCode
  split
  · rfl
  · exact shows_append (shows_marker _ _) _
  · exact shows_append (shows_append (shows_marker _ _) _) _

theorem shows_bar (l : Layout) (c : Char) (text : List Char) :
    (bar l c text).pieces.head?.any Piece.shows = true := by
  unfold bar
  split
  · rfl
  · split_ifs
    · rfl
    · rfl
    · rfl

theorem shows_colon (l : Layout) (previous : Option Char) (text : List Char) :
    (colon l previous text).pieces.head?.any Piece.shows = true := by
  unfold colon
  split_ifs
  · rfl
  · rfl

theorem shows_dash (l : Layout) (text : List Char) :
    (dash l text).pieces.head?.any Piece.shows = true := by
  unfold dash
  split
  · rfl
  · rfl
  · split_ifs
    · rfl
    · rfl
    · rfl

theorem shows_properWord (l : Layout) (text : List Char) :
    (properWord l text).pieces.head?.any Piece.shows = true := by
  obtain ⟨kind, n, heq, hkind, -⟩ := exists_single_properWord l text
  have hinLine := TokenKind.isStructural_of_isPlain (TokenKind.isPlain_of_isWordlike hkind)
  simp [heq, single, Piece.shows, hinLine]

theorem shows_closeBracket (l : Layout) (b : Bracket) :
    (closeBracket l b).pieces.head?.any Piece.shows = true := by
  unfold closeBracket
  dsimp only
  split
  · rfl
  · split_ifs
    · rfl
    · rfl

/-- A round on a significant character begins with a token of the line or a fault. -/
theorem shows_within {c : Char} (hc : Significant c) (l : Layout) (previous : Option Char)
    (p : Position) (text : List Char) :
    (within l previous p c text).pieces.head?.any Piece.shows = true := by
  refine within_cases (motive := fun r => r.pieces.head?.any Piece.shows = true) l previous p c text
    ?space ?lineBreak ?comment ?string ?tag ?code ?bar ?colon ?dash ?opening ?closing ?mark
    ?number ?proper ?word ?other
  case space => exact fun h => absurd (hc.notSpace.symm.trans h) (by decide)
  case lineBreak => exact fun h => absurd (hc.notBreak.symm.trans h) (by decide)
  case comment => exact fun h => absurd h hc.notComment
  case string => exact fun _ => shows_quotedString text
  case tag =>
    intro _
    dsimp only
    exact shows_typeTag _ text
  case code => exact fun _ => shows_embeddedCode l text
  case bar => exact shows_bar l c text
  case colon => exact fun _ => shows_colon l previous text
  case dash => exact fun _ => shows_dash l text
  case opening => exact fun _ _ => rfl
  case closing => exact fun b _ => shows_closeBracket l b
  case mark => simp [single, Piece.shows, TokenKind.isStructural]
  case number => exact fun _ => rfl
  case proper => exact fun _ => shows_properWord l text
  case word => exact fun _ => by simp [word, Piece.shows]
  case other => rfl

end Round

namespace Transcript

/-- Faults are never taken back, and every fault among the pieces is added. -/
theorem faults_extendAll_ne_nil {t : Transcript} {ps : List Piece}
    (h : t.faults ≠ #[] ∨ ∃ cause n, .fault cause n ∈ ps) : (t.extendAll ps).faults ≠ #[] := by
  induction ps generalizing t with
  | nil => simpa using h
  | cons p ps ih =>
    apply ih
    rcases h with h | ⟨cause, n, hmem⟩
    · left
      cases p with
      | skip n => exact h
      | token kind n => exact h
      | fault cause n => simp [extend]
    · rcases List.mem_cons.mp hmem with rfl | hmem
      · left
        simp [extend]
      · exact .inr ⟨cause, n, hmem⟩

end Transcript

/-- The second kind is not of the layout if the first begins a block. -/
def TokenKind.Begins (a b : TokenKind) : Prop := a = indent → b.isStructural = false

namespace Reading

/-- Every block has begun with text, and one just opened is about to. -/
structure Opened (r : Reading) : Prop where
  chain : r.transcript.kinds.IsChain Begins
  next : indent ∈ r.transcript.kinds.getLast? →
    r.layout.beginsLine = false ∧ ∃ c rest, r.rest = c :: rest ∧ Significant c

/-- Kinds without an indentation may follow if the first of them does not break a block off. -/
theorem isChain_append_of_notMem {kinds more : List TokenKind} (h : kinds.IsChain Begins)
    (hmore : indent ∉ more)
    (hfirst : indent ∈ kinds.getLast? → ∀ k ∈ more.head?, k.isStructural = false) :
    (kinds ++ more).IsChain Begins := by
  apply h.append
  · apply List.Pairwise.isChain
    apply List.pairwise_of_forall_mem_list
    rintro a ha b - rfl
    exact absurd ha hmore
  · rintro a ha b hb rfl
    exact hfirst ha b hb

theorem getLast?_append_of_notMem {kinds more : List TokenKind} (hmore : indent ∉ more)
    (h : indent ∈ (kinds ++ more).getLast?) : more = [] ∧ indent ∈ kinds.getLast? := by
  cases hlast : more.getLast? with
  | none =>
    obtain rfl := List.getLast?_eq_none_iff.mp hlast
    exact ⟨rfl, by simpa using h⟩
  | some k =>
    rw [List.getLast?_append, hlast] at h
    cases h
    exact absurd (List.mem_of_getLast? hlast) hmore

/-- Without a fault a piece that shows is a token. -/
theorem kinds_of_shows {pieces : List Piece} (h : pieces.head?.any Piece.shows = true)
    (hfaults : ∀ cause n, .fault cause n ∉ pieces) :
    ∃ k rest, Piece.kinds pieces = k :: rest ∧ k.isStructural = false := by
  cases pieces with
  | nil => exact nomatch h
  | cons p ps =>
    cases p with
    | skip n => exact nomatch h
    | token kind n => exact ⟨kind, _, rfl, by simpa [Piece.shows] using h⟩
    | fault cause n => exact absurd (List.mem_cons_self ..) (hfaults cause n)

theorem significant_of_restIsBlank {text : List Char} (h : Lexeme.restIsBlank text = false) :
    ∃ c rest, text.drop (Lexeme.blankLength text) = c :: rest ∧ Significant c := by
  unfold Lexeme.restIsBlank at h
  split at h
  · exact nomatch h
  · next c hc =>
    obtain ⟨hbreak, hcomment⟩ := Bool.or_eq_false_iff.mp h
    obtain ⟨rest, hrest⟩ := List.head?_eq_some_iff.mp hc
    refine ⟨c, rest, (Lexeme.drop_spanLength _ _).trans hrest, ?_, hbreak, by simpa using hcomment⟩
    have hhead := List.head?_dropWhile_not isInlineSpace text
    unfold Lexeme.nextSignificant? at hc
    rw [hc] at hhead
    simpa using hhead

/-- The round behind an indentation shows. -/
theorem Opened.shows {r : Reading} (h : r.Opened) (hlast : indent ∈ r.transcript.kinds.getLast?) :
    (Round.next r.layout r.transcript.cursor).pieces.head?.any Piece.shows = true := by
  obtain ⟨hbegins, c, rest, hrest, hc⟩ := h.next hlast
  rw [Round.next_within hbegins hrest]
  exact Round.shows_within hc _ _ _ _

/-- Without faults the first token behind an indentation is a word. -/
theorem Opened.kinds_next {r : Reading} (h : r.Opened) (hfaults : r.round.transcript.faults = #[])
    (hlast : indent ∈ r.transcript.kinds.getLast?) :
    ∃ k rest, Piece.kinds (Round.next r.layout r.transcript.cursor).pieces = k :: rest ∧
      k.isStructural = false :=
  kinds_of_shows (h.shows hlast) fun cause n hmem =>
    Transcript.faults_extendAll_ne_nil (t := r.transcript) (.inr ⟨cause, n, hmem⟩) hfaults

/-- A round that opens no level leaves no indentation behind. -/
theorem opened_round_of_notMem {r : Reading} (h : r.Opened)
    (hfaults : r.round.transcript.faults = #[])
    (hmore : indent ∉ Piece.kinds (Round.next r.layout r.transcript.cursor).pieces) :
    r.round.Opened := by
  have hkinds := kinds_round r
  constructor
  case chain =>
    rw [hkinds]
    apply isChain_append_of_notMem h.chain hmore
    intro hlast k hk
    obtain ⟨k', rest, heq, hword⟩ := h.kinds_next hfaults hlast
    rw [heq] at hk
    cases hk
    exact hword
  case next =>
    intro hlast
    rw [hkinds] at hlast
    obtain ⟨hnil, hlast⟩ := getLast?_append_of_notMem hmore hlast
    obtain ⟨k, rest, heq, -⟩ := h.kinds_next hfaults hlast
    exact absurd (hnil.symm.trans heq) (List.cons_ne_nil _ _).symm

theorem opened_round {r : Reading} (hrest : r.rest ≠ []) (h : r.Opened)
    (hfaults : r.round.transcript.faults = #[]) : r.round.Opened := by
  have hform := Round.next_form r.layout hrest
  have hkinds := kinds_round r
  have hlayout : r.round.layout = (Round.next r.layout r.transcript.cursor).layout := rfl
  have hleft := round_rest r
  have hflat := opened_round_of_notMem h hfaults
  have hmiddle (hbegins : r.layout.beginsLine = true) : indent ∉ r.transcript.kinds.getLast? :=
    fun hlast => absurd (hbegins.symm.trans (h.next hlast).1) (by decide)
  generalize Round.next r.layout r.transcript.cursor = next at hform hkinds hlayout hleft hflat
  have hword {ps : List Piece} (hps : ∀ p ∈ ps, p.inLine = true) : indent ∉ Piece.kinds ps :=
    fun hmem => absurd (Piece.isStructural_of_mem_kinds hps _ hmem) (by decide)
  cases hform with
  | blank begins => exact hflat (by simp [Piece.kinds])
  | indented begins notBlank =>
    by_cases hopens : r.layout.levels.headD 0 < Lexeme.blankLength r.transcript.cursor.rest
    · rw [Reindent.ofWidth_opens hopens] at hkinds hleft
      rw [kinds_indentation_opens] at hkinds
      constructor
      case chain =>
        rw [hkinds]
        apply h.chain.append (List.isChain_singleton _)
        rintro a ha b - rfl
        exact absurd ha (hmiddle begins)
      case next =>
        intro _
        refine ⟨by rw [hlayout]; rfl, ?_⟩
        rw [hleft]
        exact significant_of_restIsBlank notBlank
    · obtain ⟨closes, consistent, -, heq⟩ := ofWidth_closes hopens
      apply hflat
      rw [heq, kinds_indentation_closes]
      simp
  | within inside modes brackets inLine progress => exact hflat (hword inLine)
  | ended inside closed inLine progress =>
    apply hflat
    rw [Piece.kinds_append]
    intro hmem
    rcases List.mem_append.mp hmem with hmem | hmem
    · exact hword inLine hmem
    · simp [Piece.kinds] at hmem

end Reading

/-- Where nothing is wrong with a text, every block begins with text. -/
theorem tokens_begin (source : String) (file : Option String)
    (h : (TokenizedText.ofLabelledSource source file).errors = []) :
    (TokenizedText.ofLabelledSource source file).tokens.IsChain
      (fun a b => a.kind = indent → b.isStructural = false) := by
  have hstart : (Reading.start source.toList).Opened := ⟨.nil, by rintro ⟨⟩⟩
  obtain ⟨r, hopened, hrest, heq⟩ := Reading.transcribe_induction
    (P := fun r => r.transcript.faults = #[] → r.Opened) (fun _ => hstart) fun r hr h hfaults => by
      have hbefore : r.transcript.faults = #[] := by
        by_contra hne
        exact Transcript.faults_extendAll_ne_nil (.inl hne) hfaults
      exact Reading.opened_round hr (h hbefore) hfaults
  have herrors : r.finish.errors file = [] := by
    rw [TokenizedText.ofLabelledSource, heq] at h
    exact h
  obtain ⟨unclosed, hfinish⟩ := r.errors_finish file
  have hfaults : r.transcript.faults = #[] := by
    rw [hfinish] at herrors
    simpa [Transcript.errors] using (List.append_eq_nil_iff.mp herrors).1
  have hr := hopened hfaults
  have htokens : (TokenizedText.ofLabelledSource source file).tokens = r.finish.tokens.toList := by
    rw [TokenizedText.ofLabelledSource, heq]
  have hmarks : r.finish.tokens.toList.map (·.kind) = r.transcript.kinds ++ r.endMarks := by
    rw [Reading.tokens_finish, List.map_append, List.map_map]
    simp [Transcript.kinds, Token.mark, Function.comp_def]
  have hchain : (r.finish.tokens.toList.map (·.kind)).IsChain Begins := by
    rw [hmarks]
    apply Reading.isChain_append_of_notMem hr.chain
    · unfold Reading.endMarks
      split_ifs <;> simp
    · intro hlast
      obtain ⟨-, c, rest, hr, -⟩ := hr.next hlast
      cases hrest.symm.trans hr
  rw [htokens]
  exact (List.isChain_map _).mp hchain

end AgentScript
