import AgentScript.Proofs.Reading.OwnRounds
import AgentScript.Proofs.Reading.RoundStates
import AgentScript.Proofs.Writing.TypeTags

/-!
# Modes of a reading

Only the mode of a value and that of a name belong to a line, and each is entered once: a value
where none is open, a name where none is. So there are four stacks of modes between two rounds, and
the end of a line leaves the default mode alone. The mode of a type tag is entered and left within
one round; the name that a tag begins with is the only token that it makes a difference to.
-/
namespace AgentScript

open CharClass Lexeme Writing

namespace ModeStack

/-- All modes in force, from the default mode at the bottom to the innermost one. -/
def fromDefault (s : ModeStack) : List Mode := .default :: s.entered.reverse

/-- The stacks within a line: a value may be entered, and the name of a section within it. -/
def ofLine : List ModeStack :=
  [initial, initial.push .booleanContext, initial.push .sectionName,
    (initial.push .booleanContext).push .sectionName]

/-- What a round does to the modes. -/
inductive Turns (s : ModeStack) : ModeStack → Prop
  | kept : Turns s s
  | lineEnded : Turns s s.endLine
  | nameEnded : Turns s (s.popIf .sectionName).2
  | valueBegun (outside : (s.popIf .sectionName).2.current ≠ .booleanContext) :
      Turns s ((s.popIf .sectionName).2.push .booleanContext)
  | nameBegun (outside : s.current ≠ .sectionName) : Turns s (s.push .sectionName)

variable {s s' : ModeStack}

theorem endLine_eq_initial (h : s ∈ ofLine) : s.endLine = initial := by
  have hall : ∀ s ∈ ofLine, s.endLine = initial := by decide
  exact hall s h

theorem Turns.mem_ofLine (h : s.Turns s') (hs : s ∈ ofLine) : s' ∈ ofLine := by
  cases h with
  | kept => exact hs
  | lineEnded =>
    rw [endLine_eq_initial hs]
    exact List.mem_cons_self
  | nameEnded =>
    have hall : ∀ s ∈ ofLine, (s.popIf .sectionName).2 ∈ ofLine := by decide
    exact hall s hs
  | valueBegun outside =>
    have hall : ∀ s ∈ ofLine, (s.popIf .sectionName).2.current ≠ .booleanContext →
        (s.popIf .sectionName).2.push .booleanContext ∈ ofLine := by decide
    exact hall s hs outside
  | nameBegun outside =>
    have hall : ∀ s ∈ ofLine, s.current ≠ .sectionName → s.push .sectionName ∈ ofLine := by decide
    exact hall s hs outside

end ModeStack

namespace Round

open ModeStack

variable {l : Layout} {text : List Char}

theorem turns_endLine (l : Layout) (n : Nat) : l.modes.Turns (endLine l n).layout.modes := by
  unfold endLine
  split_ifs
  · exact .lineEnded
  · exact .kept

theorem turns_bar (l : Layout) (c : Char) (text : List Char) :
    l.modes.Turns (bar l c text).layout.modes := by
  unfold bar
  split
  · exact .kept
  · split_ifs
    · exact turns_endLine l 0
    · exact .kept
    · exact .kept

theorem turns_embeddedCode (l : Layout) (text : List Char) :
    l.modes.Turns (embeddedCode l text).layout.modes := by
  unfold embeddedCode
  split
  · exact .kept
  · exact .kept
  · exact turns_endLine l 0

/-- A colon begins a value, unless it stands within one. -/
theorem turns_colon (l : Layout) (previous : Option Char) (text : List Char) :
    l.modes.Turns (colon l previous text).layout.modes := by
  unfold colon afterColon
  dsimp only
  split_ifs with hatom hvalue
  · exact .kept
  · rw [Bool.and_eq_true, bne_iff_ne] at hvalue
    exact .valueBegun hvalue.1
  · exact .nameEnded

theorem turns_dash (l : Layout) (text : List Char) : l.modes.Turns (dash l text).layout.modes := by
  unfold dash
  split
  · exact .kept
  · exact .kept
  · split_ifs
    · exact .kept
    · exact .kept
    · exact .kept

theorem turns_properWord (l : Layout) (text : List Char) :
    l.modes.Turns (properWord l text).layout.modes := by
  obtain ⟨kind, n, heq, -, -⟩ := exists_single_properWord l text
  rw [heq]
  exact .kept

/-- Within a name no word is a keyword, so no other name begins. -/
theorem turns_word (l : Layout) (text : List Char) : l.modes.Turns (word l text).layout.modes := by
  unfold word
  dsimp only
  split_ifs with hname
  · rw [Bool.and_eq_true] at hname
    refine .nameBegun fun hcurrent => ?_
    rw [hcurrent] at hname
    exact nomatch hname.1
  · exact .kept

theorem turns_within (l : Layout) (previous : Option Char) (p : Position) (c : Char)
    (text : List Char) : l.modes.Turns (within l previous p c text).layout.modes := by
  refine within_cases (motive := fun r => l.modes.Turns r.layout.modes) l previous p c text ?space
    ?lineBreak ?comment ?string ?tag ?code ?bar ?colon ?dash ?opening ?closing ?mark ?number ?proper
    ?word ?other
  case space => exact fun _ => .kept
  case lineBreak => exact fun _ => turns_endLine l _
  case comment => exact fun _ => .kept
  case string => exact fun _ => .kept
  case tag => exact fun _ => .kept
  case code => exact fun _ => turns_embeddedCode l text
  case bar => exact turns_bar l c text
  case colon => exact fun _ => turns_colon l previous text
  case dash => exact fun _ => turns_dash l text
  case opening => exact fun _ _ => .kept
  case closing => exact fun _ _ => .kept
  case mark => exact fun _ _ => .kept
  case number => exact fun _ => .kept
  case proper => exact fun _ => turns_properWord l text
  case word => exact fun _ => turns_word l text
  case other => exact .kept

/-- Within a line a tag is read with its own mode, and nothing else is changed by it. -/
theorem next_lt {c : Cursor} (h : l.beginsLine = false) (hc : c.rest.head? = some '<') :
    next l c = ⟨typeTag (l.modes.push .typeTag).current c.rest, l⟩ := by
  obtain ⟨rest, hrest⟩ := List.head?_eq_some_iff.mp hc
  rw [next_within h hrest, within_lt, hrest]

theorem turns_next (l : Layout) (c : Cursor) : l.modes.Turns (next l c).layout.modes := by
  refine next_cases (motive := fun r => l.modes.Turns r.layout.modes) l c (fun _ => .kept)
    (fun _ => ?_) fun _ _ _ _ => turns_within l _ _ _ _
  exact beginLine_cases (motive := fun r => l.modes.Turns r.layout.modes) l c.rest
    (fun _ => .kept) fun _ => .kept

end Round

/-- Behind blanks the text begins with a name that something ends which can stand behind the name
of a type. -/
def NamesType (text name : List Char) : Prop :=
  ∃ blanks rest, text = blanks ++ (name ++ rest) ∧ blanks.all isInlineSpace = true ∧
    isTypeName name = true ∧ rest.head?.any endsTypeName = true

theorem isTypeName_take {text : List Char} (h : typeNameLength text ≠ 0) :
    isTypeName (text.take (typeNameLength text)) = true ∧
      (text.drop (typeNameLength text)).head?.any endsTypeName = true := by
  unfold typeNameLength at h ⊢
  dsimp only at h ⊢
  rw [ite_ne_right_iff] at h
  rw [if_pos h.1]
  obtain ⟨hhead, hends⟩ := Bool.and_eq_true_iff.mp h.1
  refine ⟨?_, hends⟩
  cases text with
  | nil => cases hhead
  | cons c rest =>
    have hc : isAlphabetic c = true := hhead
    rw [wordLength, take_spanLength,
      List.takeWhile_cons_of_pos (isWordChar_of_isAlphabetic hc), isTypeName, hc, Bool.true_and]
    exact List.all_takeWhile

/-- A text names a type by the characters that the scanner for names takes. -/
theorem namesType_iff {text name : List Char} : NamesType text name ↔
    typeNameLength (text.drop (blankLength text)) ≠ 0 ∧
      name = (text.drop (blankLength text)).take
        (typeNameLength (text.drop (blankLength text))) := by
  constructor
  · rintro ⟨blanks, rest, rfl, hblanks, hname, hends⟩
    have hblank : blankLength (blanks ++ (name ++ rest)) = blanks.length := by
      rw [blankLength, spanLength, takeWhile_append hblanks (head?_all_of_isTypeName hname rest)]
    rw [hblank, List.drop_left, typeNameLength_append hname hends, List.take_left]
    refine ⟨?_, rfl⟩
    rw [Ne, List.length_eq_zero_iff]
    rintro rfl
    exact absurd hname Bool.false_ne_true
  · rintro ⟨hlength, rfl⟩
    obtain ⟨hname, hends⟩ := isTypeName_take hlength
    refine ⟨text.take (blankLength text), _, ?_, ?_, hname, hends⟩
    · rw [List.take_append_drop, List.take_append_drop]
    · rw [blankLength, take_spanLength]
      exact List.all_takeWhile

theorem NamesType.unique {text name name' : List Char} (h : NamesType text name)
    (h' : NamesType text name') : name = name' :=
  (namesType_iff.mp h).2.trans (namesType_iff.mp h').2.symm

/-- Behind every bracket that opens a tag stands the name that the text begins with there, and
there are no other names of types. -/
inductive TagNames (text : List Char) : List Token → Prop
  | nil : TagNames text []
  | other {t : Token} {ts : List Token} (lt : t.kind ≠ .lt) (name : t.kind ≠ .typeTagName)
      (more : TagNames text ts) : TagNames text (t :: ts)
  | bare {lt : Token} {ts : List Token} (opens : lt.kind = .lt)
      (unnamed : ∀ name, ¬NamesType (text.drop lt.stop.offset) name) (more : TagNames text ts) :
      TagNames text (lt :: ts)
  | named {lt t : Token} {ts : List Token} (opens : lt.kind = .lt) (kind : t.kind = .typeTagName)
      (names : NamesType (text.drop lt.stop.offset) t.text.toList) (more : TagNames text ts) :
      TagNames text (lt :: t :: ts)

namespace TagNames

variable {text : List Char} {ts us : List Token}

theorem append (h : TagNames text ts) (h' : TagNames text us) : TagNames text (ts ++ us) := by
  induction h with
  | nil => exact h'
  | other lt name _ ih => exact .other lt name ih
  | bare opens unnamed _ ih => exact .bare opens unnamed ih
  | named opens kind names _ ih => exact .named opens kind names ih

theorem of_others (h : ∀ t ∈ ts, t.kind ≠ .lt ∧ t.kind ≠ .typeTagName) : TagNames text ts := by
  induction ts with
  | nil => exact .nil
  | cons t ts ih =>
    obtain ⟨ht, hmore⟩ := List.forall_mem_cons.mp h
    exact .other ht.1 ht.2 (ih hmore)

theorem of_kinds {pieces : List Piece} {c : Cursor}
    (h : ∀ k ∈ Piece.kinds pieces, k ≠ .lt ∧ k ≠ .typeTagName) :
    TagNames text (c.tokens pieces) := by
  refine of_others fun t ht => h t.kind ?_
  rw [← Piece.kinds_tokens c]
  exact List.mem_map_of_mem ht

/-- A bracket before the name of a type is followed by that name. -/
theorem exists_name (h : TagNames text ts) {before after : List Token} {lt : Token}
    (heq : ts = before ++ lt :: after) (hlt : lt.kind = .lt) {name : List Char}
    (hname : NamesType (text.drop lt.stop.offset) name) :
    ∃ t more, after = t :: more ∧ t.kind = .typeTagName ∧ t.text.toList = name := by
  induction h generalizing before with
  | nil => exact absurd heq.symm (by simp)
  | other hother _ _ ih =>
    rcases List.cons_eq_append_iff.mp heq with ⟨-, hcons⟩ | ⟨front, -, htail⟩
    · cases hcons
      exact absurd hlt hother
    · exact ih htail
  | bare _ unnamed _ ih =>
    rcases List.cons_eq_append_iff.mp heq with ⟨-, hcons⟩ | ⟨front, -, htail⟩
    · cases hcons
      exact absurd hname (unnamed name)
    · exact ih htail
  | named _ kind names _ ih =>
    rcases List.cons_eq_append_iff.mp heq with ⟨-, hcons⟩ | ⟨front, -, htail⟩
    · cases hcons
      exact ⟨_, _, rfl, kind, names.unique hname⟩
    · rcases List.cons_eq_append_iff.mp htail with ⟨-, hcons⟩ | ⟨front', -, hmore⟩
      · cases hcons
        rw [hlt] at kind
        cases kind
      · exact ih hmore

/-- The name of a type stands directly behind a bracket, and the text begins with it there. -/
theorem exists_bracket (h : TagNames text ts) {before after : List Token} {t : Token}
    (heq : ts = before ++ t :: after) (ht : t.kind = .typeTagName) :
    ∃ lt ∈ before.getLast?, lt.kind = .lt ∧ NamesType (text.drop lt.stop.offset) t.text.toList := by
  induction h generalizing before with
  | nil => exact absurd heq.symm (by simp)
  | other _ hother _ ih =>
    rcases List.cons_eq_append_iff.mp heq with ⟨-, hcons⟩ | ⟨front, rfl, htail⟩
    · cases hcons
      exact absurd ht hother
    · obtain ⟨lt, hlast, hbracket⟩ := ih htail
      exact ⟨lt, List.mem_getLast?_cons hlast, hbracket⟩
  | bare opens _ _ ih =>
    rcases List.cons_eq_append_iff.mp heq with ⟨-, hcons⟩ | ⟨front, rfl, htail⟩
    · cases hcons
      rw [opens] at ht
      cases ht
    · obtain ⟨lt, hlast, hbracket⟩ := ih htail
      exact ⟨lt, List.mem_getLast?_cons hlast, hbracket⟩
  | named opens _ names _ ih =>
    rcases List.cons_eq_append_iff.mp heq with ⟨-, hcons⟩ | ⟨front, rfl, htail⟩
    · cases hcons
      rw [opens] at ht
      cases ht
    · rcases List.cons_eq_append_iff.mp htail with ⟨rfl, hcons⟩ | ⟨front', rfl, hmore⟩
      · cases hcons
        exact ⟨_, rfl, opens, names⟩
      · obtain ⟨lt, hlast, hbracket⟩ := ih hmore
        exact ⟨lt, List.mem_getLast?_cons (List.mem_getLast?_cons hlast), hbracket⟩

/-- The tokens of a tag, at the bracket that opens it. -/
theorem typeTag {c : Cursor} (hc : c.Along text) :
    TagNames text (c.tokens (Lexeme.typeTag .typeTag c.rest)) := by
  obtain ⟨lt, body, -, hstop, hname, htokens⟩ := tokens_openTag c.rest c
  have hbehind : text.drop lt.1.stop.offset = c.rest.drop 1 := by
    rw [hstop, ← (hc.advance 1).rest_eq_drop, Cursor.advance_rest]
  have hmore : TagNames text ((body.value.map (·.1)).toList ++ body.modifierTokens) := by
    have hkinds : ∀ kind ∈ [TokenKind.typeTagValue, .pipe, .typeTagModifier],
        kind ≠ .lt ∧ kind ≠ .typeTagName := by decide
    exact of_others fun t ht => hkinds _ (body.kind_of_mem_behindName t ht)
  have hopen : TagNames text (lt.1 :: body.tokens) := by
    rw [TagBody.tokens, hname, typeName, Scanner.tokenOf]
    split_ifs with hlength
    · refine .bare lt.2 (fun name hnames => ?_) hmore
      rw [hbehind] at hnames
      exact (namesType_iff.mp hnames).1 hlength
    · refine .named lt.2 rfl ?_ hmore
      rw [hbehind]
      refine namesType_iff.mpr ⟨hlength, ?_⟩
      rw [String.toList_ofList, Cursor.advance_rest, Cursor.advance_rest]
  unfold Lexeme.typeTag
  dsimp only
  split
  · rw [Cursor.tokens_append, htokens]
    exact hopen.append (.of_kinds (by simp [Piece.kinds]))
  · rw [Cursor.tokens_fault, htokens]
    exact hopen

end TagNames

namespace Reading

variable {text : List Char} {n : Nat} {r : Reading}

theorem After.mem_ofLine (h : After text n r) : r.layout.modes ∈ ModeStack.ofLine :=
  h.keeps (P := fun r => r.layout.modes ∈ ModeStack.ofLine) List.mem_cons_self
    fun r _ hr => (Round.turns_next r.layout r.transcript.cursor).mem_ofLine hr

/-- At the beginning of a line only the default mode is in force: all rounds that lead there leave
a line or stay at its beginning. -/
theorem After.modes_atStart (h : After text n r) (hstart : r.layout.atLineStart = true) :
    r.layout.modes = .initial := by
  induction h with
  | start => rfl
  | round before left ih =>
    next r =>
    have hform := Round.next_form r.layout left
    change (Round.next r.layout r.transcript.cursor).layout.atLineStart = true at hstart
    change (Round.next r.layout r.transcript.cursor).layout.modes = _
    generalize Round.next r.layout r.transcript.cursor = next at hform hstart
    cases hform with
    | blank => exact ih hstart
    | indented => exact nomatch hstart
    | within inside =>
      rw [before.laid.beginsLine_eq] at inside
      exact absurd (inside.symm.trans hstart) Bool.false_ne_true
    | ended => exact ModeStack.endLine_eq_initial before.mem_ofLine

theorem tagNames_round (h : After text n r) : TagNames text
    (r.transcript.cursor.tokens (Round.next r.layout r.transcript.cursor).pieces) := by
  have horigin := Round.origin_next h.outsideTags r.transcript.cursor
  generalize Round.next r.layout r.transcript.cursor = next at horigin
  cases horigin with
  | number => exact .of_kinds (by simp [number, Piece.kinds])
  | string =>
    refine .of_kinds fun k hk => ?_
    rw [Round.Origin.kinds_quotedString _ k hk]
    decide
  | tag =>
    dsimp only
    exact TagNames.typeTag h.follows.along
  | other kinds =>
    refine .of_kinds fun k hk => ⟨?_, ?_⟩
    · rintro rfl
      exact absurd (kinds _ hk) (by decide)
    · rintro rfl
      exact absurd (kinds _ hk) (by decide)

theorem tagNames_transcribe (text : List Char) : TagNames text (transcribe text).tokens.toList := by
  have hmark : ∀ kind ∈ [TokenKind.newline, .dedent, .eof], kind ≠ .lt ∧ kind ≠ .typeTagName := by
    decide
  exact tokens_of_rounds .append tagNames_round fun hkinds p => .of_others
    (List.forall_mem_map.mpr fun kind hkind => hmark kind (hkinds kind hkind))

end Reading

open Reading in
/-- How a reading changes its modes, and what for. -/
structure LexicalModes (source : String) : Prop where
  /-- Between two rounds the default mode is in force, perhaps that of a value above it, and perhaps
  that of a name on top. -/
  between : ∀ {n r}, After source.toList n r → r.layout.modes.fromDefault ∈
    [[.default], [.default, .booleanContext], [.default, .sectionName],
      [.default, .booleanContext, .sectionName]]
  /-- Where a line begins, the default mode is in force alone. -/
  beginning : ∀ {n r}, After source.toList n r → r.layout.beginsLine = true →
    r.layout.modes.fromDefault = [.default]
  /-- A tag is read with its own mode above these, and leaves them as they were. -/
  tag : ∀ {n r}, After source.toList n r → r.layout.beginsLine = false → r.rest.head? = some '<' →
    ∃ inside : ModeStack,
      inside.fromDefault = r.layout.modes.fromDefault ++ [.typeTag] ∧
      (Round.next r.layout r.transcript.cursor).pieces = typeTag inside.current r.rest ∧
      r.round.layout.modes = (inside.popIf .typeTag).2
  /-- A name behind the bracket that opens a tag is read as the name of a type. -/
  named : ∀ {before lt after}, (TokenizedText.ofSource source).tokens = before ++ lt :: after →
    lt.kind = .lt → ∀ name, NamesType (source.toList.drop lt.stop.offset) name →
    ∃ t more, after = t :: more ∧ t.kind = .typeTagName ∧ t.text.toList = name
  /-- The name of a type stands nowhere else. -/
  outside : ∀ {before t after}, (TokenizedText.ofSource source).tokens = before ++ t :: after →
    t.kind = .typeTagName → ∃ lt ∈ before.getLast?, lt.kind = .lt ∧
      NamesType (source.toList.drop lt.stop.offset) t.text.toList

/-- Every source is read in four stacks of modes, and the names of types are those that its tags
begin with. -/
theorem lexical_modes (source : String) : LexicalModes source := by
  have hnames : TagNames source.toList (TokenizedText.ofSource source).tokens :=
    Reading.tagNames_transcribe source.toList
  constructor
  case between =>
    have hall : ∀ s ∈ ModeStack.ofLine, s.fromDefault ∈
        [[.default], [.default, .booleanContext], [.default, .sectionName],
          [.default, .booleanContext, .sectionName]] := by decide
    intro n r h
    exact hall _ h.mem_ofLine
  case beginning =>
    intro n r h hbegins
    rw [h.modes_atStart (Bool.and_eq_true_iff.mp hbegins).1]
    rfl
  case tag =>
    intro n r _ hinside hhead
    have hnext := Round.next_lt hinside hhead
    refine ⟨r.layout.modes.push .typeTag, ?_, ?_, ?_⟩
    · rw [ModeStack.fromDefault, ModeStack.push, List.reverse_cons, ModeStack.fromDefault,
        List.cons_append]
    · rw [hnext, Reading.rest]
    · rw [ModeStack.popIf_push]
      exact congrArg (·.layout.modes) hnext
  case named => exact fun heq hlt name hname => hnames.exists_name heq hlt hname
  case outside => exact fun heq ht => hnames.exists_bracket heq ht

/-- A value can hold the keyword of a section, and then its name. -/
example : (Reading.rounds 5 (.start "a: flow b".toList)).layout.modes.fromDefault =
    [.default, .booleanContext, .sectionName] := by decide +kernel

end AgentScript
