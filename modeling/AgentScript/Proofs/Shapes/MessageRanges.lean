import AgentScript.Proofs.Parsing.ErrorCap
import AgentScript.Proofs.Parsing.SectionRuns
import AgentScript.Proofs.Shapes.MessageReadings
import AgentScript.Proofs.Shapes.Sections

/-!
# The ranges of messages

The messages of a section that is read without an error are read line by line, in the order of the
text. So where nothing is wrong with a text, the tokens of a messages section that no range covers
are the keywords that lead to messages, and every other one is covered by exactly one range.
-/
namespace AgentScript

open ParserState WholeLine

/-- Whether the character at an index lies in the range. -/
def Location.covers (l : Location) (i : Nat) : Bool := l.start.offset ≤ i && i < l.stop.offset

/-- The number of messages with the character at an index in their ranges. -/
def covering (messages : List Message) (i : Nat) : Nat :=
  messages.countP fun m => m.location.any (·.covers i)

/-- The leading keywords on the lines of a body. -/
def leftOut (body : List Token) : List Token := (outerLines body).flatMap leadWords

section

variable {m : Message} {messages : List Message} {tokens rest : List Token} {x : Token} {i : Nat}

theorem mem_of_mem_leadWords (h : x ∈ leadWords tokens) : x ∈ tokens := by
  rw [← leadWords_append_rangedWords tokens]
  exact List.mem_append_left _ h

theorem mem_of_mem_leftOut (h : x ∈ leftOut tokens) : x ∈ tokens := by
  obtain ⟨line, hline, hx⟩ := List.mem_flatMap.mp h
  obtain ⟨before, words, newline, after, rfl, rfl, -⟩ := mem_outerLines.mp hline
  have hmem := mem_of_mem_leadWords hx
  simp only [List.mem_append, List.mem_cons] at hmem ⊢
  grind

theorem Message.ReadFrom.exists_ends (h : m.ReadFrom tokens) :
    ∃ first ∈ tokens, ∃ last ∈ tokens, m.location = some ⟨first.start, last.stop⟩ := by
  obtain ⟨inLine, ends, isBelow, begins, stops, located⟩ := h
  next words below newline first last =>
  refine ⟨first, ?_, last, ?_, located⟩
  · have hranged := List.mem_of_mem_head? begins
    have hwords : first ∈ words := by
      rw [← leadWords_append_rangedWords words]
      exact List.mem_append_right _ hranged
    exact List.mem_append_left _ hwords
  · exact List.mem_of_mem_filter (List.mem_of_mem_getLast? stops)

theorem Message.ReadFrom.leftOut_append (h : m.ReadFrom tokens) :
    leftOut (tokens ++ rest) = leadWords tokens ++ leftOut rest := by
  obtain ⟨inLine, ends, isBelow, -, -, -⟩ := h
  next words below newline first last =>
  rw [leftOut, List.append_assoc, List.cons_append, outerLines_line inLine ends,
    outerLines_below isBelow, List.flatMap_cons, leadWords_fence ends, leadWords_fence ends,
    leftOut]

theorem leftOut_newline {newline : Token} (ends : newline.IsMark .newline) :
    leftOut (newline :: rest) = leftOut rest := by
  have hline : outerLines (newline :: rest) = [newline] :: outerLines rest :=
    outerLines_line (List.forall_mem_nil _) ends
  have hnone : leadWords ([] ++ [newline]) = leadWords [] := leadWords_fence ends
  rw [leftOut, hline, List.flatMap_cons, ← List.nil_append [newline], hnone]
  rfl

/-- The range of a message stops with its tokens. -/
theorem Message.ReadFrom.not_covers (h : m.ReadFrom tokens)
    (hbefore : ∀ y ∈ tokens, y.stop.offset ≤ i) : m.location.any (·.covers i) = false := by
  obtain ⟨first, -, last, hlast, hlocation⟩ := h.exists_ends
  have hstop := hbefore last hlast
  simp only [hlocation, Option.any_some, Location.covers, Bool.and_eq_false_iff,
    decide_eq_false_iff_not]
  omega

/-- The range of a message covers the text of its line and block but for the leading keywords. -/
theorem Message.ReadFrom.covers (h : m.ReadFrom tokens) (hinOrder : Token.InOrder tokens)
    (hx : x ∈ tokens) (hword : x.isStructural = false) (hi : x.Covers i) :
    m.location.any (·.covers i) = !decide (x ∈ leadWords tokens) := by
  obtain ⟨inLine, ends, isBelow, begins, stops, located⟩ := h
  next words below newline first last =>
  rw [leadWords_fence ends, located]
  have hwhole := leadWords_append_rangedWords words
  have htexts : Token.texts (words ++ newline :: below) =
      leadWords words ++ (rangedWords words ++ Token.texts below) := by
    have hnewline : newline.isStructural = true := ends.isStructural_eq
    rw [Token.texts_append, Token.texts_words inLine, ← List.append_assoc, hwhole, Token.texts,
      List.filter_cons_of_neg (by simp [hnewline])]
    rfl
  have hmem : x ∈ Token.texts (words ++ newline :: below) :=
    List.mem_filter.mpr ⟨hx, by rw [hword]; rfl⟩
  have htextOrder := hinOrder.sublist (List.filter_sublist (p := fun t => !t.isStructural))
  change Token.InOrder (Token.texts (words ++ newline :: below)) at htextOrder
  have hstop := (htextOrder.before_last stops hmem).2
  have hfirst : first ∈ (rangedWords words ++ Token.texts below).head? := by
    rw [List.head?_append, Option.mem_def.mp begins]
    rfl
  rw [htexts] at hmem htextOrder
  have hapart := (List.pairwise_append.mp htextOrder.pairwise).2.2
  have hwidth : x.start.offset < x.stop.offset := Nat.lt_of_le_of_lt hi.1 hi.2
  by_cases hlead : x ∈ leadWords words
  · -- The range begins behind every leading keyword.
    have hbefore := (hapart x hlead first (List.mem_of_mem_head? hfirst)).2
    have houtside : ¬ first.start.offset ≤ i := by
      have hi := hi.2
      omega
    simp [Location.covers, hlead, houtside]
  · have hranged := (List.mem_append.mp hmem).resolve_left hlead
    have hrangedOrder := htextOrder.sublist (List.sublist_append_right _ _)
    have hbefore := (hrangedOrder.first_before hfirst hranged).2
    have hinside : first.start.offset ≤ i ∧ i < last.stop.offset :=
      ⟨Nat.le_trans hbefore hi.1, Nat.lt_of_lt_of_le hi.2 hstop⟩
    simp [Location.covers, hlead, hinside]

theorem InLines.exists_ends (h : InLines Message.ReadFrom messages tokens) (hm : m ∈ messages) :
    ∃ first ∈ tokens, ∃ last ∈ tokens, m.location = some ⟨first.start, last.stop⟩ := by
  induction h with
  | nil => cases hm
  | newline ends later ih =>
    obtain ⟨first, hfirst, last, hlast, hlocation⟩ := ih hm
    exact ⟨first, List.mem_cons_of_mem _ hfirst, last, List.mem_cons_of_mem _ hlast, hlocation⟩
  | item read later ih =>
    rcases List.mem_cons.mp hm with rfl | hm
    · obtain ⟨first, hfirst, last, hlast, hlocation⟩ := read.exists_ends
      exact ⟨first, List.mem_append_left _ hfirst, last, List.mem_append_left _ hlast, hlocation⟩
    · obtain ⟨first, hfirst, last, hlast, hlocation⟩ := ih hm
      exact ⟨first, List.mem_append_right _ hfirst, last, List.mem_append_right _ hlast, hlocation⟩

/-- The ranges of messages begin with their tokens. -/
theorem InLines.covering_eq_zero (h : InLines Message.ReadFrom messages tokens)
    (hbehind : ∀ y ∈ tokens, i < y.start.offset) : covering messages i = 0 := by
  refine List.countP_eq_zero.mpr fun m hm hcovers => ?_
  obtain ⟨first, hfirst, last, -, hlocation⟩ := h.exists_ends hm
  have hstart := hbehind first hfirst
  simp only [hlocation, Option.any_some, Location.covers, Bool.and_eq_true,
    decide_eq_true_eq] at hcovers
  omega

/-- Every character of a text token of the body lies in the range of exactly one message, but for
the leading keywords, which lie in none. -/
theorem InLines.covering_eq (h : InLines Message.ReadFrom messages tokens)
    (hinOrder : Token.InOrder tokens) (hx : x ∈ tokens) (hword : x.isStructural = false)
    (hi : x.Covers i) : covering messages i = if x ∈ leftOut tokens then 0 else 1 := by
  induction h with
  | nil => cases hx
  | @newline messages rest newline ends later ih =>
    have hrest : x ∈ rest := by
      refine (List.mem_cons.mp hx).resolve_left ?_
      rintro rfl
      rw [ends.isStructural_eq] at hword
      cases hword
    rw [leftOut_newline ends]
    exact ih (hinOrder.sublist (List.sublist_cons_self _ _)) hrest
  | @item m messages tokens rest read later ih =>
    have hapart := (List.pairwise_append.mp hinOrder.pairwise).2.2
    have hwidth : x.start.offset < x.stop.offset := Nat.lt_of_le_of_lt hi.1 hi.2
    have hfirstOrder := hinOrder.sublist (List.sublist_append_left _ _)
    have hrestOrder := hinOrder.sublist (List.sublist_append_right _ _)
    have hcons : covering (m :: messages) i =
        covering messages i + if m.location.any (·.covers i) then 1 else 0 := List.countP_cons
    rw [read.leftOut_append, hcons]
    rcases List.mem_append.mp hx with hx | hx
    · -- The ranges of later messages begin behind the token.
      have hlater : covering messages i = 0 := later.covering_eq_zero fun y hy =>
        Nat.lt_of_lt_of_le hi.2 (hapart x hx y hy).2
      have hrest : x ∉ leftOut rest := fun hmem => by
        have hbehind := (hapart x hx x (mem_of_mem_leftOut hmem)).2
        omega
      rw [hlater, read.covers hfirstOrder hx hword hi]
      by_cases hlead : x ∈ leadWords tokens <;> simp [hlead, hrest]
    · -- The range of the first message stops before the token.
      have hnone : m.location.any (·.covers i) = false := read.not_covers fun y hy =>
        Nat.le_trans (hapart y hy x hx).2 hi.1
      have hlead : x ∉ leadWords tokens := fun hmem => by
        have hbehind := (hapart x (mem_of_mem_leadWords hmem) x hx).2
        omega
      rw [ih hrestOrder hx, hnone]
      simp [hlead]

end

/-- On the way through all tokens of a text without lexical errors. -/
structure ParserState.Amid (limit : Nat) (all : List Token) (s : ParserState) : Prop where
  midway : s.Midway
  ordered : s.Ordered limit
  suffix : s.tokens <:+ all

instance enduring_amid {limit : Nat} {all : List Token} : Enduring (Amid limit all) :=
  ⟨fun hs h => ⟨hs.midway.leads h, hs.ordered.leads h, h.tokens_isSuffix.trans hs.suffix⟩⟩

/-- The section is read from a header without a block, or from a block whose lines are its
messages. The ranges of these cover the text of the block but for the leading keywords. -/
inductive MessageSection.ReadFrom (m : MessageSection) (all : List Token) : Prop
  | bare {before after name : List Token} {keyword colon newline : Token}
      (tokens_eq : all = before ++ keyword :: (name ++ colon :: newline :: after))
      (opens : keyword.kind = .keyword (.opening .messages))
      (named : IsSectionName .messages name) (closes : colon.kind = .colon)
      (ends : newline.IsMark .newline) (noBlock : ∀ t ∈ after.head?, t.kind ≠ .indent)
      (begins : m.location.map (·.start) = some keyword.start) (none : m.messages = [])
  | block {before body after : List Token} {dedent : Token} (o : Opening .messages)
      (tokens_eq : all = before ++ (o.tokens ++ (body ++ dedent :: after))) (inner : IsBody body)
      (closes : dedent.IsMark .dedent) (begins : m.location.map (·.start) = some o.keyword.start)
      (read : InLines Message.ReadFrom m.messages body)
      (covered : ∀ x ∈ body, x.isStructural = false → ∀ i, x.Covers i →
        covering m.messages i = if x ∈ leftOut body then 0 else 1)

namespace Parser

variable {limit : Nat} {all : List Token} {s t : ParserState}

/-- A word that is passed stands before the tokens to come. -/
theorem tokens_advance_of_word (he : s.ending.kind = .eof) (hword : s.kind.isStructural = false) :
    s.tokens = s.current :: s.advance.tokens := by
  obtain ⟨l, hl⟩ := s.exists_tokens
  rw [hl, (advance_of_tokens he hl (Token.ne_of_word hword rfl)).1]

theorem tokens_of_takeSectionName {what : String} {name : Option String} (he : s.ending.kind = .eof)
    (h : takeSectionName what s = .ok name t) :
    ∃ words, IsSectionName .messages words ∧ s.tokens = words ++ t.tokens := by
  unfold takeSectionName at h
  rw [check_bind_apply] at h
  split_ifs at h
  · cases h
    exact ⟨[], .leftOut (by decide) (by decide), rfl⟩
  · obtain ⟨word, u, hu, ⟨⟩⟩ := bind_eq_ok.mp h
    obtain ⟨hwordlike, -, rfl⟩ := takeName_eq_ok.mp hu
    exact ⟨[s.current], .given hwordlike,
      tokens_advance_of_word he (isStructural_of_isWordlike hwordlike)⟩

/-- Where a word has been passed, a line is finished by the end of the line. -/
theorem newline_of_finishLine {u : ParserState} (hs : s.Midway)
    (hword : s.kind.isStructural = false)
    (h : finishLine s.advance = .ok () u) : s.advance.kind = .newline ∧ u = s.advance.advance := by
  have hne : s.kind ≠ .eof := Token.ne_of_word hword rfl
  obtain ⟨more, hmore⟩ := Midway.exists_rest (atEnd_of_ne hs.ending hne)
  obtain ⟨words, newline, rest, rfl, hwords, hnewline⟩ :=
    Settled.exists_newline (hmore ▸ hs.settled) hword
  have htokens : s.tokens = s.current :: (words ++ newline :: rest ++ [s.ending]) := by
    rw [ParserState.tokens, hmore]
    rfl
  obtain ⟨hnext, hprevious, -⟩ := advance_of_tokens hs.ending htokens hne
  cases words with
  | nil =>
    have hkind := (kind_of_tokens hnext).trans hnewline
    rw [finishLine_of_newline hkind] at h
    cases h
    exact ⟨hkind, rfl⟩
  | cons x words =>
    have hkind : s.advance.kind.isStructural = false :=
      (kind_of_tokens hnext).symm ▸ hwords x (List.mem_cons_self ..)
    rw [finishLine_of_word hkind ⟨_, hprevious, hword⟩] at h
    cases h

/-- Before the end of the text a layout token is a mark. -/
theorem isMark_current (hs : s.Midway) {k : TokenKind} (hk : s.kind = k)
    (hlayout : k.isStructural = true)
    (hne : k ≠ .eof) : s.current.IsMark k := by
  obtain ⟨more, hmore⟩ := Midway.exists_rest (atEnd_of_ne hs.ending (hk ▸ hne))
  exact Settled.isMark (hmore ▸ hs.settled) hk hlayout

theorem start_spanFrom (s : ParserState) (p : Position) : (s.spanFrom p).start = p := by
  unfold ParserState.spanFrom
  split
  · split_ifs <;> rfl
  · rfl

/-- The header of a section up to the end of its line. -/
theorem tokens_of_header {u v : ParserState} {what : String} {name : Option String} (hs : s.Midway)
    (hword : s.kind.isStructural = false) (hname : takeSectionName what s.advance = .ok name u)
    (hcolon : u.kind = .colon) (hfinish : finishLine u.advance = .ok () v) :
    ∃ keyword words colon newline, keyword = s.current ∧ IsSectionName .messages words ∧
      colon.kind = .colon ∧ newline.IsMark .newline ∧ s.Leads v ∧
      s.tokens = keyword :: (words ++ colon :: newline :: v.tokens) := by
  have hadvance := leads_advance s
  have hu := hadvance.trans (leads_of_ok _ hname)
  have hmid := hs.leads hu
  have hbehind := hu.trans (leads_advance u)
  have hfirst := tokens_advance_of_word hs.ending hword
  obtain ⟨words, hnamed, hwords⟩ := tokens_of_takeSectionName (hs.leads hadvance).ending hname
  have hcolonTokens := tokens_advance_of_word hmid.ending (by rw [hcolon]; rfl)
  obtain ⟨hnewline, rfl⟩ := newline_of_finishLine hmid (by rw [hcolon]; rfl) hfinish
  have hends := isMark_current (hs.leads hbehind) hnewline rfl (by decide)
  have hnext : u.advance.tokens = u.advance.current :: u.advance.advance.tokens := by
    obtain ⟨l, hl⟩ := u.advance.exists_tokens
    rw [hl, (advance_of_tokens (hs.leads hbehind).ending hl (hends.ne_eof (by decide))).1]
  refine ⟨_, words, u.current, u.advance.current, rfl, hnamed, hcolon, hends,
    hbehind.trans (leads_advance _), ?_⟩
  rw [hfirst, hwords, hcolonTokens, hnext]

/-- A section that is read without a problem is read from a header and the lines of its block. -/
theorem yieldsClean_messageSection_ranged :
    YieldsClean (fun s => Amid limit all s ∧ s.kind = .keyword (.opening .messages))
      (MessageSection.ReadFrom · all) messageSection := by
  rintro s t m ⟨hs, hk⟩ heq hclean
  obtain ⟨_, _, ⟨⟩, heq⟩ := bind_eq_ok.mp heq
  obtain ⟨name, u, hname, heq⟩ := bind_eq_ok.mp heq
  obtain ⟨_, _, hcolon, heq⟩ := bind_eq_ok.mp heq
  obtain ⟨messages, v, hblock, heq⟩ := bind_eq_ok.mp heq
  obtain ⟨location, _, ⟨⟩, ⟨⟩⟩ := bind_eq_ok.mp heq
  obtain ⟨hkind, -, rfl⟩ := expect_eq_ok.mp hcolon
  obtain ⟨_, w, hfinish, hblock⟩ := bind_eq_ok.mp hblock
  obtain ⟨keyword, words, colon, newline, hkeyword, hnamed, hcloses, hends, hleads, htokens⟩ :=
    tokens_of_header hs.midway (by rw [hk]; rfl) hname hkind hfinish
  have hw := Enduring.leads hs hleads
  have hopens : keyword.kind = .keyword (.opening .messages) := hkeyword ▸ hk
  have hbegins : (some (t.spanFrom s.current.start)).map Location.start = some keyword.start := by
    rw [hkeyword]
    exact congrArg some (start_spanFrom _ _)
  obtain ⟨before, hbefore⟩ := hs.suffix
  rw [htokens] at hbefore
  rcases eatBlock_of_clean (readsLine_message fun s hs => Amid.ordered hs) (fun _ => steps_message)
    refuses_message hw hw.midway hblock hclean with ⟨hnone, rfl⟩ | hinside
  · refine .bare hbefore.symm hopens hnamed hcloses hends (fun x hx hindent => hnone ?_) hbegins rfl
    obtain ⟨l, hl⟩ := w.exists_tokens
    rw [hl] at hx
    cases hx
    exact hindent
  · obtain ⟨indent, body, dedent, rest, hbody, hdeepens, hinner, hdedent, hread⟩ := hinside
    let o : Opening .messages :=
      ⟨keyword, words, colon, newline, indent, hopens, hnamed, hcloses, hends, hdeepens⟩
    have hall : all = before ++ (o.tokens ++ (body ++ dedent :: rest)) := by
      rw [← hbefore, o.tokens_append, hbody]
    refine .block o hall hinner hdedent hbegins hread fun x hx hword i hi => ?_
    refine hread.covering_eq (hw.ordered.inOrder.sublist ?_) hx hword hi
    rw [hbody]
    exact (List.sublist_append_left _ _).cons _

end Parser

namespace Parser

variable {S : ParserState → Prop} [Enduring S] {Q : MessageSection → Prop}
  (hsection : YieldsClean (fun s => S s ∧ s.kind = .keyword (.opening .messages)) Q messageSection)

include hsection

/-- The messages section of an agent is read where its keyword stands. -/
theorem yieldsClean_agentPart_messages {p : AgentParts} (hp : ∀ m ∈ p.messages, Q m) :
    YieldsClean S (fun p => ∀ m ∈ p.messages, Q m) (agentPart p) := by
  refine .peek_bind fun t => ?_
  split
  · exact YieldsBetween.restrict (.skip fun _ => .skip fun _ => (Yields.pure hp).between)
      fun _ h => h.1
  · exact YieldsBetween.restrict (.skip fun _ => .skip fun _ => (Yields.pure hp).between)
      fun _ h => h.1
  · exact YieldsBetween.restrict (.skip fun _ => (Yields.pure hp).between) fun _ h => h.1
  · next hk =>
    have hhere := hsection.restrict (K := fun s => S s ∧ s.current = t) fun s h =>
      ⟨h.1, by rw [ParserState.kind, h.2, hk]⟩
    exact hhere.thenYields fun m hm => (yields_fillOnce hp hm _ _).map fun _ h => h
  · exact (yields_fail _ _).between
  · refine YieldsBetween.restrict (S := S) ?_ fun _ h => h.1
    refine .skip fun _ => .ite (Yields.between ?_) (yields_unexpected _).between
    refine .skip fun t => .ite (yields_fail _ _) (.skip fun _ => .skip fun _ => .skip fun _ => ?_)
    exact .skip fun _ => .ite (.skip fun _ => .pure hp) (.skip fun _ => .pure hp)

theorem yieldsClean_agent_messages : YieldsClean S (fun a => ∀ m ∈ a.messages, Q m) agent := by
  refine .skip fun _ => .skip fun _ => .skip fun _ => ?_
  refine (yieldsBetween_block (LineParser.keepsBetween_whole fun _ hp =>
    yieldsClean_agentPart_messages hsection hp) forall_mem_none).bind fun p hp => ?_
  exact .skip fun l => (Yields.pure hp).between

end Parser

/-- A parse that reports nothing does the same without a cap. -/
theorem ParsedFile.read_uncapped_of_clean {s : ParserState} (hclean : (read s).2.problems = #[]) :
    read s.uncapped = ((read s).1, (read s).2.uncapped) := by
  have hs := halted_of_clean ((leads_read s).clean hclean)
  have habreast := abreast_read hs
  generalize read s = r at hclean habreast
  generalize read s.uncapped = r' at habreast
  cases habreast with
  | level same notHalted => exact same
  | cut hcut =>
    have hhalted := hcut.halted
    rw [halted_of_clean hclean] at hhalted
    cases hhalted

/-- Where neither the text nor the parse is at fault, the messages section is read from a header and
the lines of its block; each message is placed from the first word behind its leading keywords to
its last token with text, and the ranges cover all text of the block but these keywords. -/
theorem Document.messages_ranged (source : String) (options : ParseOptions)
    (hlexical : (ofSource source options).lexicalErrors = [])
    (hparse : (ofSource source options).parseErrors = []) :
    ∀ tree ∈ (ofSource source options).tree, ∀ agent ∈ tree.agent, ∀ m ∈ agent.messages,
      m.ReadFrom (ofSource source options).tokens := by
  unfold ofSource at hlexical hparse ⊢
  dsimp only at hlexical hparse ⊢
  have hordered := ordered_ofSource source options.file 0 hlexical
  have hmidway : (ofTokens (TokenizedText.ofLabelledSource source options.file).tokens 0).Midway :=
    (midway_ofSource source).1
  have hall : (ofTokens (TokenizedText.ofLabelledSource source options.file).tokens 0).tokens =
      (TokenizedText.ofLabelledSource source options.file).tokens := tokens_ofSource _ _
  generalize (TokenizedText.ofLabelledSource source options.file).tokens = tokens at *
  have hclean : (ParsedFile.read (ofTokens tokens options.maxErrors)).2.problems = #[] := by
    simpa [ParsedFile.ofTokens] using hparse
  have hfree : ParsedFile.read (ofTokens tokens 0) = _ := ParsedFile.read_uncapped_of_clean hclean
  have hsection : Parser.YieldsClean (ParserState.Amid source.toList.length tokens)
      (fun agent => ∀ m ∈ agent.messages, m.ReadFrom tokens) Parser.agent :=
    Parser.yieldsClean_agent_messages Parser.yieldsClean_messageSection_ranged
  have hamid : ParserState.Amid source.toList.length tokens (ofTokens tokens 0) :=
    ⟨hmidway, hordered, hall.symm ▸ List.suffix_refl tokens⟩
  have hagent := ParsedFile.agent_between (hsection.restrict fun _ h => h.1) hamid
    (by rw [hfree]; exact hclean)
  rw [hfree] at hagent
  exact hagent

/-- A message with both leading keywords and a block, and one with neither. -/
theorem Document.messages_ranged_blocks :
    let source := "agent A:\n  messages:\n    promotional message Hello:\n      text: \"hi\"\n" ++
      "      reply \"Yes\"\n    text \"bye\"\n"
    let document := ofSource source .standard
    document.lexicalErrors = [] ∧ document.parseErrors = [] ∧
      ∃ tree ∈ document.tree, ∃ agent ∈ tree.agent, ∃ m ∈ agent.messages,
        m.messages.length = 2 ∧ m.ReadFrom document.tokens := by
  intro source document
  have hlexical : document.lexicalErrors = [] := by decide +kernel
  have hparse : document.parseErrors = [] := by decide +kernel
  have htree :
      document.tree.any (·.agent.any (·.messages.any (·.messages.length == 2))) = true := by
    decide +kernel
  obtain ⟨tree, htree, hagent⟩ := (Option.any_eq_true _ _).mp htree
  obtain ⟨agent, hagent, hmessages⟩ := (Option.any_eq_true _ _).mp hagent
  obtain ⟨m, hm, hlength⟩ := (Option.any_eq_true _ _).mp hmessages
  refine ⟨hlexical, hparse, tree, htree, agent, hagent, m, hm, by simpa using hlength, ?_⟩
  exact messages_ranged _ _ hlexical hparse tree htree agent hagent m hm

/-- A traffic type stands in the range of the section and in that of no message. -/
theorem Document.messages_ranged_traffic :
    let document := ofSource "agent A:\n  messages:\n    transactional text \"hi\"\n" .standard
    document.lexicalErrors = [] ∧ document.parseErrors = [] ∧
      ∃ tree ∈ document.tree, ∃ agent ∈ tree.agent, ∃ m ∈ agent.messages, ∃ x ∈ document.tokens,
        x.kind = .keyword (.traffic .transactional) ∧ m.messages.length = 1 ∧
        m.location.any (·.covers x.start.offset) = true ∧
          covering m.messages x.start.offset = 0 := by
  intro document
  have htree : document.tree.any (·.agent.any (·.messages.any fun m => document.tokens.any fun x =>
      x.kind = .keyword (.traffic .transactional) ∧ m.messages.length = 1 ∧
        m.location.any (·.covers x.start.offset) = true ∧
        covering m.messages x.start.offset = 0)) = true := by
    decide +kernel
  obtain ⟨tree, htree, hagent⟩ := (Option.any_eq_true _ _).mp htree
  obtain ⟨agent, hagent, hmessages⟩ := (Option.any_eq_true _ _).mp hagent
  obtain ⟨m, hm, htokens⟩ := (Option.any_eq_true _ _).mp hmessages
  obtain ⟨x, hx, h⟩ := List.any_eq_true.mp htokens
  exact ⟨by decide +kernel, by decide +kernel, tree, htree, agent, hagent, m, hm, x, hx,
    of_decide_eq_true h⟩

end AgentScript
