import AgentScript.Proofs.Reading.Openings
import AgentScript.Proofs.Writing.Lexemes

/-!
# The words and marks of a line

How every word and mark that a line can be written with is read again. Names are read as
names in every mode that takes a run of words as a whole, keywords as keywords in the
default mode. A colon is no atom before a blank, and it opens a value if one follows.
-/
namespace AgentScript

open CharClass Lexeme Writing

/-- A keyword as it is written. -/
def Keyword.lowerWord (k : Keyword) : LowerWord :=
  ⟨k.word, (by decide : ∀ k ∈ all, isLowerWord k.word.toList = true) k k.mem_all⟩

theorem Keyword.ofWord?_word (k : Keyword) : ofWord? k.word = some k :=
  (by decide : ∀ k ∈ all, ofWord? k.word = some k) k k.mem_all

namespace Mode

/-- The modes that read a run of words as a whole, and no word as the name of a type. -/
def Naming (m : Mode) : Prop := m.prefersLiterals = false ∧ m.prefersTypeNames = false

theorem naming_default : Naming default := ⟨rfl, rfl⟩

theorem naming_sectionName : Naming sectionName := ⟨rfl, rfl⟩

/-- A run of words is a name or a literal. -/
theorem properWordKind_eq (m : Mode) (run : String) :
    m.properWordKind run = .properWord ∨ (m.properWordKind run).isLiteralWord = true := by
  unfold properWordKind
  split_ifs
  · cases hk : TokenKind.ofLiteralWord? run with
    | none => exact .inl rfl
    | some k =>
      obtain ⟨w, -, rfl⟩ := Option.map_eq_some_iff.mp hk
      exact .inr rfl
  · exact .inl rfl

theorem wordKind_keyword (k : Keyword) : default.wordKind k.word = .keyword k := by
  simp [wordKind, prefersTypeNames, recognizesKeywords, TokenKind.ofKeyword?, k.ofWord?_word]

end Mode

namespace TokenForm

/-- A run of capitalized words, which can be a literal word. -/
def properName (text : String) : TokenForm :=
  spelled (fun k => k = .properWord ∨ k.isLiteralWord = true) text

theorem word_of_properName {text : String} {t : Token} (h : properName text t) : word text t := by
  refine ⟨?_, h.2⟩
  rcases h.1 with hk | hk
  · rw [hk]
    rfl
  · cases hkind : t.kind <;> simp_all [TokenKind.isLiteralWord, TokenKind.isWordlike]

end TokenForm

variable {levels : List Nat} {brackets : List Bracket} {modes : Mode → Prop}

namespace Layout.InLine

variable {l : Layout}

theorem pushMode (h : l.InLine levels brackets modes) {m : Mode} (hm : m.endsWithLine = true) :
    (l.pushMode m).InLine levels brackets (· = m) where
  within := h.within
  width_eq := h.width_eq
  levels_eq := h.levels_eq
  brackets_eq := h.brackets_eq
  leaves := (ModeStack.endLine_push_of_endsWithLine hm _).trans h.leaves
  mode := rfl

theorem popModeIf (h : l.InLine levels brackets modes) {m : Mode} (hm : m.endsWithLine = true) :
    (l.popModeIf m).InLine levels brackets Anything where
  within := h.within
  width_eq := h.width_eq
  levels_eq := h.levels_eq
  brackets_eq := h.brackets_eq
  leaves := by
    unfold Layout.popModeIf ModeStack.popIf
    dsimp only
    split_ifs with htop
    · obtain ⟨rest, hrest⟩ := List.head?_eq_some_iff.mp htop
      rw [← h.leaves, ModeStack.endLine, ModeStack.endLine, hrest, List.tail_cons,
        List.dropWhile_cons_of_pos hm]
    · exact h.leaves
  mode := trivial

end Layout.InLine

namespace Round

variable {l : Layout}

theorem within_of_isWordChar {c : Char} (h : isWordChar c = true) (previous : Option Char)
    (p : Position) (text : List Char) :
    within l previous p c text =
      if isDigit c then ⟨number text, l⟩
      else if isUppercase c then properWord l text
      else if isLowercase c || c = '_' then word l text
      else unexpected l c := by
  have hne : ∀ mark, isWordChar mark = false → c ≠ mark := fun mark => ne_of_isWordChar h
  have hspace : isInlineSpace c = false := by
    simp [isInlineSpace, hne ' ' rfl, hne '\t' rfl]
  have hbreak : isLineBreak c = false := by
    simp [isLineBreak, hne '\n' rfl, hne '\r' rfl]
  have hopener : Bracket.ofOpener? c = none := by
    unfold Bracket.ofOpener?
    split
    · exact absurd rfl (hne '(' rfl)
    · exact absurd rfl (hne '[' rfl)
    · exact absurd rfl (hne '\x7b' rfl)
    · rfl
  have hcloser : Bracket.ofCloser? c = none := by
    unfold Bracket.ofCloser?
    split
    · exact absurd rfl (hne ')' rfl)
    · exact absurd rfl (hne ']' rfl)
    · exact absurd rfl (hne '\x7d' rfl)
    · rfl
  unfold within
  simp [hspace, hbreak, hopener, hcloser, hne '#' rfl, hne '"' rfl, hne '<' rfl, hne '$' rfl,
    hne '|' rfl, hne '+' rfl, hne ':' rfl, hne '-' rfl, hne ',' rfl, hne '.' rfl, hne '/' rfl,
    hne '>' rfl]

theorem within_of_isProperRun {text : List Char} {c : Char} (h : isProperRun (c :: text) = true)
    (previous : Option Char) (p : Position) (rest : List Char) :
    within l previous p c rest = properWord l rest := by
  have hc := isWordChar_of_isProperRun h
  rw [isProperRun, Bool.and_eq_true] at h
  rw [within_of_isWordChar hc, isDigit_eq_false_of_cased (.inl h.1), if_neg (by simp), if_pos h.1]

/-- A run of words is one token where no literal is preferred to it. -/
theorem properWord_append {text rest : List Char} (hrun : isProperRun text = true)
    (hrest : endsRun rest = true)
    (hfree : l.modes.current.prefersLiterals = true →
      TokenKind.ofLiteralWord? (String.ofList (text.takeWhile (· != ' '))) = none) :
    properWord l (text ++ rest) =
      single l (l.modes.current.properWordKind (String.ofList text)) text.length := by
  have hliteral : (if l.modes.current.prefersLiterals = true then
      TokenKind.ofLiteralWord? (String.ofList (text.takeWhile (· != ' '))) else none) = none := by
    split_ifs with hprefers
    · exact hfree hprefers
    · rfl
  rw [properWord]
  simp only [take_segmentLength_append hrun hrest, hliteral, properWordLength_append hrun hrest,
    List.take_left']

/-- A literal word is a token of its own where it is preferred, also at the beginning of a run. -/
theorem properWord_literal {text rest : List Char} {k : TokenKind} (hrun : isProperRun text = true)
    (hrest : endsRun rest = true) (hprefers : l.modes.current.prefersLiterals = true)
    (hk : TokenKind.ofLiteralWord? (String.ofList (text.takeWhile (· != ' '))) = some k) :
    properWord l (text ++ rest) = single l k (text.takeWhile (· != ' ')).length := by
  rw [properWord]
  simp only [hprefers, if_true, take_segmentLength_append hrun hrest, hk]
  rw [segmentLength_append hrun hrest]

theorem within_lowerWord {text rest : List Char} {c : Char} (hword : isLowerWord (c :: text) = true)
    (hrest : endsWord rest = true) (previous : Option Char) (p : Position) :
    within l previous p c (c :: text ++ rest) =
      ⟨[.token (l.modes.current.wordKind (String.ofList (c :: text))) (c :: text).length],
        if (l.modes.current.wordKind (String.ofList (c :: text))).isSectionKeyword &&
            nameFollows rest then l.pushMode .sectionName else l⟩ := by
  have hc := isWordChar_of_isLowerWord hword
  rw [isLowerWord, Bool.and_eq_true, Bool.or_eq_true, beq_iff_eq] at hword
  obtain ⟨hhead, htail⟩ := hword
  have hother : isDigit c = false ∧ isUppercase c = false := by
    rcases hhead with hlower | rfl
    · exact ⟨isDigit_eq_false_of_cased (.inr hlower), isUppercase_of_isLowercase hlower⟩
    · exact ⟨rfl, rfl⟩
  have hlength : wordLength (c :: text ++ rest) = (c :: text).length :=
    wordLength_append (by simpa [hc] using htail) hrest
  rw [within_of_isWordChar hc, hother.1, if_neg (by simp), hother.2, if_neg (by simp),
    if_pos (by simpa using hhead), word]
  simp only [hlength, List.take_left', List.drop_left']

end Round

/-- A run of words leaves the mode as it is. -/
theorem readsAs_run (run : ProperRun) (m : Mode)
    (hfree : m.prefersLiterals = true → TokenKind.ofLiteralWord? run.firstSegment = none) :
    WithinLine (· = m) Anything run.text.toList
      [.spelled (· = m.properWordKind run.text) run.text] (· = m) EndsRun := by
  obtain ⟨c, tail, htext, hrun, heq⟩ := exists_cons rfl run.isRun
  rw [ProperRun.firstSegment, htext] at hfree
  rw [htext]
  refine fun _ _ => readsAs_of_within fun l previous p rest hl _ hrest => ?_
  rw [← hl.mode] at hfree
  refine ⟨_, (Round.within_of_isProperRun hrun previous p _).trans
    (Round.properWord_append hrun hrest hfree), .single fun _ _ => ?_, hl⟩
  rw [heq, hl.mode]
  exact ⟨rfl, rfl⟩

theorem readsAs_properRun (run : ProperRun) (hmodes : ∀ m, modes m → m.prefersLiterals = false) :
    WithinLine modes Anything run.text.toList [.properName run.text] modes EndsRun := by
  refine .of_mode fun m hm => ?_
  have hrun := readsAs_run run m fun h => absurd h (by simp [hmodes m hm])
  refine (hrun.widen fun m' hm' => hm' ▸ hm).imp ?_
  rintro t ⟨hkind, htext⟩
  exact ⟨hkind ▸ Mode.properWordKind_eq m run.text, htext⟩

/-- Where literal words are preferred one that begins a run is read without the rest of it. -/
theorem readsAs_firstSegment (run : ProperRun) {m : Mode} {k : TokenKind} {tail : List Char}
    (hm : m.prefersLiterals = true) (hk : TokenKind.ofLiteralWord? run.firstSegment = some k)
    (htext : run.text.toList = run.firstSegment.toList ++ tail) :
    WithinLine (· = m) Anything run.firstSegment.toList
      [.spelled (· = k) run.firstSegment] (· = m)
      fun rest => ∃ behind, rest = tail ++ behind ∧ EndsRun behind := by
  obtain ⟨c, more, hcons, hrun, -⟩ := exists_cons rfl run.isRun
  have hc : c ≠ ' ' := by
    rintro rfl
    exact absurd (isProperRun_cons.mp hrun).1 (by decide)
  have hfirst : (c :: more).takeWhile (· != ' ') = c :: more.takeWhile (· != ' ') :=
    List.takeWhile_cons_of_pos (by simpa using hc)
  have hsegment : run.firstSegment.toList = c :: more.takeWhile (· != ' ') := by
    rw [ProperRun.firstSegment, String.toList_ofList, hcons, hfirst]
  have hliteral := hk
  rw [ProperRun.firstSegment, hcons] at hliteral
  rw [hsegment] at htext ⊢
  refine .single (fun l previous p rest hl _ hf => ?_) fun p q => ⟨rfl, ?_⟩
  · obtain ⟨behind, rfl, hbehind⟩ := hf
    rw [← hl] at hm
    rw [Round.within_of_isProperRun hrun, ← List.append_assoc, ← htext, hcons,
      Round.properWord_literal hrun hbehind hm hliteral, hfirst]
    rfl
  · rw [← hsegment, String.ofList_toList]

/-- The mode behind a word depends on whether the word begins a section that a name follows. -/
theorem readsAs_lowerWord_of (word : LowerWord) (m : Mode) {modes : Mode → Prop}
    {follow : List Char → Prop} (hends : ∀ rest, follow rest → EndsWord rest)
    (hmodes : ∀ rest, follow rest →
      modes (if (m.wordKind word.text).isSectionKeyword && Round.nameFollows rest then .sectionName
        else m)) :
    WithinLine (· = m) Anything word.text.toList
      [.spelled (· = m.wordKind word.text) word.text] modes follow := by
  obtain ⟨c, tail, htext, hword, heq⟩ := exists_cons rfl word.isWord
  rw [htext]
  refine fun _ _ => readsAs_of_within fun l previous p rest hl _ hrest =>
    ⟨_, Round.within_lowerWord hword (hends rest hrest) previous p, .single ?_, ?_⟩
  · intro p q
    rw [heq, hl.mode]
    exact ⟨rfl, rfl⟩
  · have hbehind := hmodes rest hrest
    rw [heq, hl.mode]
    dsimp only
    split_ifs at hbehind ⊢
    · exact (hl.pushMode rfl).mono fun _ hm' => hm' ▸ hbehind
    · exact hl.mono fun _ hm' => hm' ▸ hbehind

/-- A word leaves the mode as it is, unless names are expected after it. -/
theorem readsAs_lowerWord (word : LowerWord) (m : Mode) :
    WithinLine (· = m) Anything word.text.toList
      [.spelled (· = m.wordKind word.text) word.text]
      (fun m' => m' = m ∨ m' = .sectionName ∧ (m.wordKind word.text).isSectionKeyword = true)
      EndsWord := by
  refine readsAs_lowerWord_of word m (fun _ hrest => hrest) fun rest _ => ?_
  split_ifs with hopens
  · exact .inr ⟨rfl, (Bool.and_eq_true _ _ ▸ hopens).1⟩
  · exact .inl rfl

/-- A word after which no name is expected leaves the mode as it is. -/
theorem readsAs_plainWord (word : LowerWord) (m : Mode)
    (h : (m.wordKind word.text).isSectionKeyword = false) :
    WithinLine (· = m) Anything word.text.toList [.spelled (· = m.wordKind word.text) word.text]
      (· = m) EndsWord := by
  refine (readsAs_lowerWord word m).widen fun m' hm' => hm'.resolve_right ?_
  rintro ⟨-, hsection⟩
  rw [h] at hsection
  exact nomatch hsection

theorem readsAs_name (name : Name) :
    WithinLine Mode.Naming Anything name.text.toList [.word name.text] Mode.Naming EndsRun := by
  cases name with
  | proper run =>
    exact (readsAs_properRun run fun _ hm => hm.1).imp fun _ => TokenForm.word_of_properName
  | lower word =>
    refine .of_mode fun m hm => ?_
    have hword := (readsAs_lowerWord word m).around (fun _ hb => hb) fun _ => endsWord_of_endsRun
    refine (hword.widen fun m' hm' => ?_).imp ?_
    · rcases hm' with rfl | ⟨rfl, -⟩
      · exact hm
      · exact Mode.naming_sectionName
    · rintro t ⟨hkind, htext⟩
      exact ⟨hkind ▸ Mode.isWordlike_wordKind hm.2 _, htext⟩

theorem readsAs_keyword (k : Keyword) (h : (TokenKind.keyword k).isSectionKeyword = false) :
    WithinLine (· = .default) Anything k.word.toList [.ofKind (.keyword k)] (· = .default)
      EndsWord := by
  have hkind : Mode.default.wordKind k.lowerWord.text = .keyword k := Mode.wordKind_keyword k
  refine (readsAs_plainWord k.lowerWord .default (by rw [hkind, h])).imp ?_
  rintro t ⟨hk, -⟩
  exact hk.trans hkind

/-- After the keyword of a section names are expected. -/
theorem readsAs_opening (form : SectionForm) :
    WithinLine (· = .default) Anything form.word.toList [.ofKind (.keyword (.opening form))]
      Mode.Naming EndsWord := by
  refine ((readsAs_lowerWord (Keyword.opening form).lowerWord .default).widen
    fun m' hm' => ?_).imp ?_
  · rcases hm' with rfl | ⟨rfl, -⟩
    · exact Mode.naming_default
    · exact Mode.naming_sectionName
  · rintro t ⟨hkind, -⟩
    exact hkind.trans (Mode.wordKind_keyword (.opening form))

/-- A string that stands for the text. -/
def TokenForm.string (text : String) : TokenForm := fun t =>
  t.kind = .string ∧ Quoted.decodeString t.text = text

theorem readsAs_string (text : String) :
    WithinLine modes Anything (Quoted.encode text.toList) [.string text] modes Anything := by
  refine .single (fun l previous p rest _ _ _ => ?_) fun p q => ⟨rfl, ?_⟩
  · change Round.mk (quotedString (Quoted.encode text.toList ++ rest)) l = _
    simp only [quotedString, stringExtent_encode, if_true]
    rfl
  · change String.ofList (Quoted.decode (String.ofList (Quoted.encode text.toList)).toList) = text
    rw [String.toList_ofList, decode_encode, String.ofList_toList]

/-- Behind a blank, a comma or an opening bracket a value can begin. -/
def BeginsValue (previous : Option Char) : Prop :=
  previous.all (fun p => isWhitespace p || p == ',' || (Bracket.ofOpener? p).isSome) = true

/-- The atom of the name. -/
def TokenForm.atom (name : AtomName) : TokenForm :=
  spelled (· = .atom) (String.ofList (':' :: name.text.toList))

theorem readsAs_atom (name : AtomName) :
    WithinLine modes BeginsValue (':' :: name.text.toList) [.atom name] modes EndsWord := by
  refine .single (fun l previous p rest _ hb hf => ?_) fun _ _ => ⟨rfl, rfl⟩
  obtain ⟨c, tail, htext, hname, -⟩ := exists_cons rfl name.isName
  rw [isAtomName, Bool.and_eq_true] at hname
  have hstarts : Round.startsAtom previous (':' :: name.text.toList ++ rest) = true := by
    rw [Round.startsAtom, Bool.and_eq_true]
    exact ⟨hb, by simpa [htext] using hname.1⟩
  have hword : name.text.toList.all isWordChar = true := by
    have hc : isWordChar c = true := by
      rcases Bool.or_eq_true _ _ ▸ hname.1 with hc | hc
      · exact isWordChar_of_isAlphabetic hc
      · rw [beq_iff_eq.mp hc]
        rfl
    simpa [htext, hc] using hname.2
  change Round.colon l previous (':' :: name.text.toList ++ rest) = _
  rw [Round.colon, if_pos hstarts]
  change Round.single l .atom (1 + wordLength (name.text.toList ++ rest)) = _
  rw [wordLength_append hword hf, Nat.add_comm]
  rfl

theorem readsAs_blank : WithinLine modes Anything [' '] [] modes Anything :=
  fun _ _ => readsAs_of_within fun _ _ _ _ hl _ _ => ⟨_, rfl, .skip [' '] .nil, hl⟩

theorem readsAs_comma : WithinLine modes Anything [','] [.ofKind .comma] modes Anything :=
  .single (fun _ _ _ _ _ _ _ => rfl) fun _ _ => rfl

theorem readsAs_slash : WithinLine modes Anything ['/'] [.ofKind .slash] modes Anything :=
  .single (fun _ _ _ _ _ _ _ => rfl) fun _ _ => rfl

theorem readsAs_dot : WithinLine modes Anything ['.'] [.ofKind .dot] modes Anything :=
  .single (fun _ _ _ _ _ _ _ => rfl) fun _ _ => rfl

theorem readsAs_arrow : WithinLine modes Anything ['-', '>'] [.ofKind .arrow] modes Anything :=
  .single (fun _ _ _ _ _ _ _ => rfl) fun _ _ => rfl

theorem readsAs_opener (b : Bracket) :
    ReadsAs (Layout.InLine levels brackets modes) Anything [b.opener] [.ofKind (.opening b)]
      (Layout.InLine levels (b :: brackets) modes) Anything :=
  readsAs_of_within fun l previous p rest hl _ _ =>
    ⟨Round.openBracket l b p, by cases b <;> rfl, .mark fun _ _ => rfl,
      { hl with brackets_eq := congrArg (b :: ·) hl.brackets_eq }⟩

theorem readsAs_closer (b : Bracket) :
    ReadsAs (Layout.InLine levels (b :: brackets) modes) Anything [b.closer]
      [.ofKind (.closing b)] (Layout.InLine levels brackets modes) Anything := by
  refine readsAs_of_within fun l previous p rest hl _ _ =>
    ⟨Round.closeBracket l b, by cases b <;> rfl, ?_, ?_⟩
  · obtain ⟨⟨o, q⟩, rest', hopen, ho, -⟩ := List.map_eq_cons_iff.mp hl.brackets_eq
    obtain rfl : o = b := ho
    simp only [Round.closeBracket, hopen, if_true, List.nil_append]
    exact .mark fun _ _ => rfl
  · refine { hl with brackets_eq := ?_ }
    change l.brackets.tail.map Prod.fst = brackets
    rw [List.map_tail, hl.brackets_eq, List.tail_cons]

/-- Where no word follows a colon, it begins no atom. -/
theorem within_colon (l : Layout) (previous : Option Char) (p : Position) {c : Char}
    (hc : (isAlphabetic c || c == '_') = false) (rest : List Char) :
    Round.within l previous p ':' (':' :: c :: rest) =
      ⟨[.token .colon 1], Round.afterColon l (c :: rest)⟩ := by
  have hatom : Round.startsAtom previous (':' :: c :: rest) = false := by
    rw [Round.startsAtom, Bool.and_eq_false_iff]
    exact .inr hc
  change Round.colon l previous (':' :: c :: rest) = _
  rw [Round.colon, hatom]
  rfl

/-- A colon at the end of its line. -/
theorem readsAs_colon_end :
    WithinLine modes Anything [':'] [.ofKind .colon] Anything (·.head? = some '\n') := by
  refine fun _ _ => readsAs_of_within fun l previous p rest hl _ hf => ?_
  obtain ⟨rest', rfl⟩ := List.head?_eq_some_iff.mp hf
  refine ⟨_, within_colon l previous p rfl rest', .mark fun _ _ => rfl, ?_⟩
  have hblank : restIsBlank ('\n' :: rest') = true := rfl
  simp only [Round.afterColon, hblank, Bool.not_true, Bool.and_false, if_neg Bool.false_ne_true]
  exact hl.popModeIf rfl

/-- A colon that a blank and something else follow. -/
theorem readsAs_colon_value :
    WithinLine modes Anything [':'] [.ofKind .colon] (· = .booleanContext)
      fun rest => rest.head? = some ' ' ∧ restIsBlank rest = false := by
  refine fun _ _ => readsAs_of_within fun l previous p rest hl _ ⟨hhead, hblank⟩ => ?_
  obtain ⟨rest', rfl⟩ := List.head?_eq_some_iff.mp hhead
  refine ⟨_, within_colon l previous p rfl rest', .mark fun _ _ => rfl, ?_⟩
  have hpop := hl.popModeIf (m := .sectionName) rfl
  simp only [Round.afterColon, hblank, Bool.not_false, Bool.and_true]
  split_ifs with hmode
  · exact hpop.pushMode rfl
  · exact { hpop with mode := by simpa using hmode }

end AgentScript
