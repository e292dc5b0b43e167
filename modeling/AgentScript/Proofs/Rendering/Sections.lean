import AgentScript.Proofs.Rendering.Values

/-!
# Rendered sections

The parsers of rules, messages, settings and agents mirror themselves as those of their parts do.
-/
namespace AgentScript

open Rendered (render)
open Unplaced (render_unplaced)

variable {r : Rendering} {beyond : List Token} {P : ParserState → Prop}

theorem Operand.ofToken?_render (t : Token) :
    Operand.ofToken? (render r t) = (Operand.ofToken? t).map (render r) := by
  obtain ⟨kind, text, start, stop⟩ := t
  by_cases h : kind = .newline
  · subst h
    rfl
  · have hsame : render r (Token.mk kind text start stop) =
        ⟨kind, text, render r start, render r stop⟩ := congrArg (Token.mk kind · _ _) (if_neg h)
    rw [hsame]
    unfold ofToken?
    dsimp only
    split
    · rfl
    · rfl
    · split_ifs <;> rfl

theorem WhenClause.build_render (condition : Value) (operands : List Operand)
    (withClause : Option WithClause) (l : Location) :
    build (render r condition) (render r operands) (render r withClause) (render r l) =
      (build condition operands withClause l).map (render r) := by
  cases operands <;> rfl

theorem FlowRule.build_render (operands : List Operand) (withClause : Option WithClause)
    (whenClauses : List WhenClause) (l : Location) :
    build (render r operands) (render r withClause) (render r whenClauses) (render r l) =
      (build operands withClause whenClauses l).map (render r) := by
  unfold build
  rw [length_render]
  split_ifs <;> rfl

theorem CardParts.withOption?_render (c : CardParts) (name : String) :
    (render r c).withOption? name = (c.withOption? name).map (render r) := by
  unfold withOption?
  split <;> rfl

theorem CardWidth.ofOption?_render (w : Option CardWidth) (name : String) :
    ofOption? (render r w) name = (ofOption? w name).map (render r) := by
  unfold ofOption?
  split <;> rfl

namespace Parser

theorem mirrors_parameter : Mirrors r beyond P parameter parameter :=
  mirrors_keyed mirrors_inlineValue mirrors_takeName _

theorem mirrors_optionalWith : Mirrors r beyond P optionalWith optionalWith := by
  refine .check (.bind (.advance (ne_eof_of (by decide))) fun start => ?_) (.pure none)
  refine .bind (mirrors_separated mirrors_parameter mirrors_parameter (by decide)) fun _ => ?_
  exact .bind .spanFrom fun _ => .pure _

theorem mirrors_operand : Mirrors r beyond P operand operand := by
  refine .peek fun t => ?_
  rw [Operand.ofToken?_render]
  cases h : Operand.ofToken? t with
  | none => exact .unexpected
  | some o =>
    refine .bind (.advance fun s hs => ?_) fun _ => .pure o
    rintro heof
    have hword := isStructural_of_ofToken? h
    rw [← hs.2, ← ParserState.kind, heof] at hword
    cases hword

theorem mirrors_whenClause : Mirrors r beyond P whenClause whenClause := by
  refine .bind (.expect (by decide)) fun start => .bind mirrors_inlineValue fun condition => ?_
  refine .bind (mirrors_followers mirrors_operand (by decide)) fun operands => ?_
  refine .bind mirrors_optionalWith fun withClause => .bind .spanFrom fun l => ?_
  refine .bind (.ofNode (WhenClause.build_render ..)) fun clause => ?_
  exact .bind .finishLine fun _ => .pure clause

theorem mirrors_operandChain : Mirrors r beyond P operandChain operandChain := by
  refine .bind (mirrors_separated mirrors_operand mirrors_operand (by decide)) fun operands => ?_
  rw [length_render]
  exact .ite (fun _ => .unexpected) fun _ => .pure operands

theorem mirrors_flowRule : Mirrors r beyond P flowRule flowRule := by
  refine .peek fun start => .bind mirrors_operandChain fun operands =>
    .bind .spanFrom fun header => ?_
  refine .bind mirrors_optionalWith fun withClause => ?_
  refine .bind (.block (.item mirrors_whenClause) []) fun whenClauses => .bind .spanFrom fun l => ?_
  exact .ofNode (FlowRule.build_render ..)

theorem mirrors_flowSection (hP : ∀ s, P s → s.kind ≠ .eof) :
    Mirrors r beyond P flowSection flowSection := by
  refine .bind (.advance hP) fun start => .bind mirrors_takeName fun name => ?_
  refine .bind (.expect (by decide)) fun _ => ?_
  exact .bind (.block (.item mirrors_flowRule) []) fun _ => .bind .spanFrom fun _ => .pure _

theorem mirrors_url (what : String) : Mirrors r beyond P (url what) (url what) := by
  refine .kind fun k => ?_
  split
  case h_1 => exact .bind mirrors_typeTag fun _ => .pure _
  case h_2 =>
    refine .advance_word (onLine_of (by decide) (by decide)) fun t ht => ?_
    rw [ht]
    exact .pure _
  case h_3 => exact .unexpected

theorem mirrors_optionalUrl (what : String) :
    Mirrors r beyond P (optionalUrl what) (optionalUrl what) := by
  refine .kind fun k => ?_
  split
  case h_1 => exact .bind (mirrors_url what) fun _ => .pure _
  case h_2 => exact .bind (mirrors_url what) fun _ => .pure _
  case h_3 => exact .pure none

theorem mirrors_optionalString (what : String) :
    Mirrors r beyond P (optionalString what) (optionalString what) :=
  .check (.bind mirrors_takeString fun _ => .pure _) (.pure none)

section

variable {α : Type} [Rendered α] {apply : α → String → Option α}
  (happly : ∀ a name, apply (render r a) name = (apply a name).map (render r))

include happly

theorem mirrors_applyOption (place : OptionPlace) (a : α) {t : Token}
    (ht : (render r t).text = t.text) :
    Mirrors r beyond P (applyOption place apply a t)
      (applyOption place apply (render r a) (render r t)) := by
  unfold applyOption optionName
  rw [ht, happly]
  cases apply a _ with
  | some b => exact .pure b
  | none => exact .bind .report fun _ => .pure a

theorem mirrors_options (place : OptionPlace) (fuel : Nat) (a : α) :
    Mirrors r beyond P (options place apply fuel a) (options place apply fuel (render r a)) := by
  induction fuel generalizing a P with
  | zero => exact .pure a
  | succ fuel ih =>
    refine .check (.advance_word (onLine_of (by decide) (by decide)) fun t ht => ?_) (.pure a)
    exact .bind (mirrors_applyOption happly place a ht) fun b => ih b

end

theorem mirrors_cardOptions (fuel : Nat) (c : CardParts) :
    Mirrors r beyond P (cardOptions fuel c) (cardOptions fuel (render r c)) := by
  induction fuel generalizing c P with
  | zero => exact .pure c
  | succ fuel ih =>
    refine .kind fun k => ?_
    split
    case h_1 =>
      refine .advance_word (onLine_of (by decide) (by decide)) fun t ht => ?_
      exact .bind (mirrors_applyOption CardParts.withOption?_render _ c ht) fun c => ih c
    case h_2 => exact .bind (mirrors_url _) fun image => ih { c with imageUrl := some image }
    case h_3 => exact .bind (mirrors_url _) fun image => ih { c with imageUrl := some image }
    case h_4 => exact .pure c

theorem mirrors_time (what : String) : Mirrors r beyond P (time what) (time what) :=
  .check mirrors_typeTag .unexpected

theorem mirrors_suggestionAction (form : SuggestionForm) :
    Mirrors r beyond P (suggestionAction form) (suggestionAction form) := by
  cases form with
  | reply => exact .fixed (mirrors_optionalString _) fun _ => .pure _
  | dial => exact .bind (mirrors_url _) fun _ => .pure _
  | openUrl =>
    refine .bind (mirrors_url _) fun target => .lineLeft fun fuel => ?_
    exact .bind (mirrors_options (fun _ _ => Option.map_id'.symm) _ _ _)
      fun _ => .pure _
  | shareLocation => exact .pure _
  | viewLocation => exact .fixed (mirrors_optionalUrl _) fun _ => .pure _
  | saveEvent =>
    refine .bind mirrors_takeString fun title => .bind (mirrors_time _) fun start => ?_
    exact .bind (mirrors_time _) fun stop => .fixed (mirrors_optionalString _) fun _ => .pure _

theorem mirrors_suggestion : Mirrors r beyond P suggestion suggestion := by
  refine .kind fun k => ?_
  split
  case h_1 form =>
    refine .bind (.advance (ne_eof_of (by simp))) fun start =>
      .bind mirrors_takeString fun text => ?_
    refine .bind (mirrors_suggestionAction form) fun action => .bind .spanFrom fun l => ?_
    exact .bind .finishLine fun _ => .pure _
  case h_2 =>
    refine .failHere fun s hs => congrArg ParseCause.unknownSuggestionForm (Token.text_render ?_)
    intro h
    cases hs.2.symm.trans h
  case h_3 => exact .unexpected

theorem mirrors_suggestionBlock : Mirrors r beyond P suggestionBlock suggestionBlock :=
  .block (.item mirrors_suggestion) []

theorem startsEntry_rendered {s : ParserState} (hs : s.Closed) :
    startsEntry (s.rendered r beyond) = startsEntry s := by
  unfold startsEntry
  rw [ParserState.kind_rendered]
  cases hword : s.kind.isWordlike with
  | false => rfl
  | true => rw [hs.kind_ahead_one (by rintro heof; rw [heof] at hword; exact nomatch hword)]

theorem startsWith_rendered (word : String) {s : ParserState} (hs : s.Closed) (hon : s.OnLine) :
    startsWith word (s.rendered r beyond) = startsWith word s := by
  unfold startsWith
  rw [ParserState.current_rendered, Token.text_render hon.ne_newline, hs.kind_ahead_one hon.ne_eof]

/-- A word with a colon behind it is passed with the colon. -/
theorem mirrors_pastColon {α : Type} [Rendered α] {p p' : Parser α}
    (hP : ∀ s, P s → s.kind ≠ .eof ∧ (s.ahead 1).kind = .colon)
    (hp : Mirrors r beyond (fun _ => True) p p') :
    Mirrors r beyond P (advance >>= fun _ => advance >>= fun _ => p)
      (advance >>= fun _ => advance >>= fun _ => p') := by
  refine (Mirrors.advance fun s hs => (hP s hs).1).bindOk fun s t u hs heq => ?_
  cases heq
  refine .bind (.advance ?_) fun _ => hp
  rintro _ rfl
  simp [ParserState.kind_advance, (hP s hs).2]

theorem mirrors_cardLine : LineParser.Mirrors r beyond ParserState.OnLine cardLine := by
  refine .choose (fun s hs hon => startsWith_rendered _ hs hon) (.thenFinish (.whole fun c => ?_))
    (.whole fun c => .bind mirrors_suggestion fun x => ?_)
  · refine mirrors_pastColon (fun s hs => ⟨hs.1.ne_eof, ?_⟩) ?_
    · simpa using (Bool.and_eq_true_iff.mp hs.2).2
    · exact .bind mirrors_takeString fun description =>
        .pure { c with description := some description }
  · change Mirrors r beyond _ _ (pure { render r c with
      suggestions := render r c.suggestions ++ [render r x] })
    rw [render_concat]
    exact .pure { c with suggestions := c.suggestions ++ [x] }

theorem mirrors_richCard (traffic : Option TrafficType) :
    Mirrors r beyond P (richCard traffic) (richCard traffic) := by
  refine .bind (.expect (by decide)) fun start => .fixed mirrors_takeOptionalName fun name => ?_
  refine .bind mirrors_takeString fun title => .lineLeft fun fuel => ?_
  refine .bind (mirrors_cardOptions fuel .empty) fun parts => ?_
  exact .bind (.block mirrors_cardLine parts) fun _ => .bind .spanFrom fun _ => .pure _

section

variable (traffic : Option TrafficType) (hP : ∀ s, P s → s.kind ≠ .eof)

include hP

theorem mirrors_textMessage : Mirrors r beyond P (textMessage traffic) (textMessage traffic) := by
  refine .bind (.advance hP) fun start => .fixed mirrors_takeOptionalName fun name => ?_
  refine .bind mirrors_takeString fun text => .bind mirrors_suggestionBlock fun suggestions => ?_
  exact .bind .spanFrom fun _ => .pure _

theorem mirrors_rbmFile : Mirrors r beyond P (rbmFile traffic) (rbmFile traffic) := by
  refine .bind (.advance hP) fun start => .fixed mirrors_takeOptionalName fun name => ?_
  refine .bind (mirrors_url _) fun fileUrl => .fixed (mirrors_optionalUrl _) fun thumbnailUrl => ?_
  exact .bind mirrors_suggestionBlock fun suggestions => .bind .spanFrom fun _ => .pure _

theorem mirrors_file : Mirrors r beyond P (file traffic) (file traffic) := by
  refine .bind (.advance hP) fun start => .fixed mirrors_takeOptionalName fun name => ?_
  refine .bind (mirrors_url _) fun target => .bind mirrors_suggestionBlock fun suggestions => ?_
  exact .bind .spanFrom fun _ => .pure _

end

theorem mirrors_carouselLine : LineParser.Mirrors r beyond P carouselLine := by
  refine .whole fun parts => ?_
  obtain ⟨cards, suggestions⟩ := parts
  refine .check (.bind (mirrors_richCard none) fun card => ?_)
    (.bind mirrors_suggestion fun x => ?_)
  · rw [render_concat]
    exact .pure (cards ++ [card], suggestions)
  · rw [render_concat]
    exact .pure (cards, suggestions ++ [x])

theorem mirrors_carousel (traffic : Option TrafficType) (hP : ∀ s, P s → s.kind ≠ .eof) :
    Mirrors r beyond P (carousel traffic) (carousel traffic) := by
  refine .bind (.advance hP) fun start => .fixed mirrors_takeOptionalName fun name => ?_
  refine .lineLeft fun fuel => ?_
  refine .fixed (mirrors_options CardWidth.ofOption?_render _ _ none) fun width => ?_
  refine .bind (.block mirrors_carouselLine ([], [])) fun parts => ?_
  obtain ⟨cards, suggestions⟩ := parts
  exact .bind .spanFrom fun _ => .pure _

theorem mirrors_attributeEntry : Mirrors r beyond P attributeEntry attributeEntry :=
  mirrors_keyedLine mirrors_value _ _

theorem mirrors_definitionLine :
    LineParser.Mirrors r beyond ParserState.OnLine definitionLine := by
  refine .choose (fun s hs hon => ?_) (.whole fun parts => ?_)
    (.choose (fun s hs hon => startsWith_rendered _ hs hon) (.whole fun parts => ?_)
      (.whole fun parts => ?_))
  · rw [ParserState.kind_rendered, hs.kind_ahead_one hon.ne_eof]
  all_goals obtain ⟨attributes, suggestions⟩ := parts
  · refine .bind mirrors_suggestion fun x => ?_
    rw [render_concat]
    exact .pure (attributes, suggestions ++ [x])
  · refine mirrors_pastColon (fun s hs => ⟨hs.1.ne_eof, ?_⟩) ?_
    · simpa using (Bool.and_eq_true_iff.mp hs.2).2
    · exact .bind (.block (.item mirrors_suggestion) suggestions) fun suggestions =>
        .pure (attributes, suggestions)
  · refine .bind mirrors_attributeEntry fun a => ?_
    rw [render_concat]
    exact .pure (attributes ++ [a], suggestions)

theorem mirrors_messageDefinition (traffic : Option TrafficType) :
    Mirrors r beyond P (messageDefinition traffic) (messageDefinition traffic) := by
  refine .peek fun start => .bind mirrors_takeName fun name =>
    .bind (.expect (by decide)) fun _ => ?_
  refine .bind (.block mirrors_definitionLine ([], [])) fun parts => ?_
  obtain ⟨attributes, suggestions⟩ := parts
  exact .bind .spanFrom fun _ => .pure _

theorem mirrors_shortForm (traffic : Option TrafficType) (form : MessageForm)
    (hP : ∀ s, P s → s.kind ≠ .eof) :
    Mirrors r beyond P (shortForm traffic form) (shortForm traffic form) := by
  cases form with
  | text => exact mirrors_textMessage traffic hP
  | richCard => exact .bind (mirrors_richCard traffic) fun _ => .pure _
  | carousel => exact mirrors_carousel traffic hP
  | rbmFile => exact mirrors_rbmFile traffic hP
  | file => exact mirrors_file traffic hP

theorem mirrors_takeTraffic : Mirrors r beyond P takeTraffic takeTraffic := by
  refine .kind fun k => ?_
  split
  case h_1 t ht => exact .bind (.advance (ne_eof_of (by rintro rfl; cases ht))) fun _ => .pure _
  case h_2 => exact .pure none

theorem mirrors_message : Mirrors r beyond P message message := by
  refine .fixed mirrors_takeTraffic fun traffic => .kind fun k => ?_
  split
  case h_1 form => exact mirrors_shortForm traffic form (ne_eof_of (by simp))
  case h_2 =>
    exact .bind (.advance (ne_eof_of (by decide))) fun _ => mirrors_messageDefinition traffic
  case h_3 =>
    refine .failHere fun s hs => congrArg ParseCause.straySuggestion (Token.text_render ?_)
    intro h
    cases hs.2.symm.trans h
  case h_4 =>
    refine .look (fun s hs _ => startsEntry_rendered hs) fun b => ?_
    refine .ite (fun _ => mirrors_messageDefinition traffic) fun _ =>
      .ite (fun hk => ?_) fun _ => .unexpected
    refine .failHere fun s hs => congrArg ParseCause.unknownMessageForm (Token.text_render ?_)
    have hkind : s.kind = .commonNoun := hs.1.2.trans (eq_of_beq hk)
    intro h
    cases hkind.symm.trans h

theorem mirrors_messageSection (hP : ∀ s, P s → s.kind ≠ .eof) :
    Mirrors r beyond P messageSection messageSection := by
  refine .bind (.advance hP) fun start => .fixed mirrors_takeSectionName fun name => ?_
  refine .bind (.expect (by decide)) fun _ => ?_
  exact .bind (.block (.item mirrors_message) []) fun _ => .bind .spanFrom fun _ => .pure _

theorem mirrors_importLine (hP : ∀ s, P s → s.kind ≠ .eof) :
    Mirrors r beyond P importLine importLine := by
  refine .bind (.advance hP) fun start => ?_
  refine .fixed (mirrors_separated mirrors_takeName mirrors_takeName (by decide)) fun path => ?_
  refine .fixed (mirrors_optionally mirrors_takeName (by decide)) fun localName => ?_
  refine .fixed (mirrors_optionally mirrors_takeString (by decide)) fun source => ?_
  exact .bind .spanFrom fun l => .bind .finishLine fun _ => .pure _

theorem mirrors_mappedRow : Mirrors r beyond P mappedRow mappedRow := by
  refine .peek fun start => .bind
    (mirrors_separated mirrors_inlineValue mirrors_inlineValue (by decide)) fun values => ?_
  exact .bind .spanFrom fun l => .bind .finishLine fun _ => .pure _

theorem mirrors_mappedType : Mirrors r beyond P mappedType mappedType := by
  refine .peek fun start => .bind mirrors_takeName fun name =>
    .bind (.expect (by decide)) fun _ => ?_
  refine .bind (.expect (by decide)) fun _ => .bind (.expect (by decide)) fun _ => ?_
  refine .fixed (mirrors_separated mirrors_takeName mirrors_takeName (by decide)) fun schema => ?_
  refine .bind (.expect (by decide)) fun _ => .bind (.expect (by decide)) fun _ => ?_
  exact .bind (.block (.item mirrors_mappedRow) []) fun _ => .bind .spanFrom fun _ => .pure _

theorem startsMappedType_rendered {s : ParserState} (hs : s.Closed) :
    startsMappedType (s.rendered r beyond) = startsMappedType s := by
  unfold startsMappedType
  rw [ParserState.kind_rendered]
  cases hword : s.kind.isWordlike with
  | false => rfl
  | true =>
    have hne : s.kind ≠ .eof := by
      rintro heof
      rw [heof] at hword
      exact nomatch hword
    rw [hs.kind_ahead_one hne]
    by_cases hlist : (s.ahead 1).kind = .keyword .listWord
    · rw [hs.kind_ahead_two hne (by simp [hlist])]
    · rw [beq_eq_false_iff_ne.mpr hlist]
      rfl

theorem mirrors_settingsLine : LineParser.Mirrors r beyond P settingsLine := by
  refine .choose (fun s hs _ => startsMappedType_rendered hs) (.whole fun parts => ?_)
    (.whole fun parts => ?_)
  all_goals obtain ⟨attributes, mappedTypes⟩ := parts
  · refine .bind mirrors_mappedType fun m => ?_
    rw [render_concat]
    exact .pure (attributes, mappedTypes ++ [m])
  · refine .bind mirrors_attributeEntry fun a => ?_
    rw [render_concat]
    exact .pure (attributes ++ [a], mappedTypes)

theorem mirrors_settingsSection (hP : ∀ s, P s → s.kind ≠ .eof) :
    Mirrors r beyond P settingsSection settingsSection := by
  refine .bind (.advance hP) fun start => .fixed mirrors_takeSectionName fun name => ?_
  refine .bind (.expect (by decide)) fun _ =>
    .bind (.block mirrors_settingsLine ([], [])) fun parts => ?_
  obtain ⟨attributes, mappedTypes⟩ := parts
  exact .bind .spanFrom fun _ => .pure _

theorem mirrors_fillOnce {α : Type} [Rendered α] (old : Option α) (new : α) (cause : ParseCause)
    (l : Location) :
    Mirrors r beyond P (fillOnce old new cause l)
      (fillOnce (render r old) (render r new) (render r cause) (render r l)) := by
  cases old with
  | none => exact .pure (some new)
  | some a => exact .bind .report fun _ => .pure (some a)

theorem mirrors_agentAttribute (p : AgentParts)
    (hP : ∀ s, P s → s.OnLine ∧ (s.ahead 1).kind = .colon) :
    Mirrors r beyond P (agentAttribute p) (agentAttribute (render r p)) := by
  have hpeek : Mirrors r beyond P peek peek := .seen fun _ _ _ => ParserState.current_rendered
  refine hpeek.bindOk fun s t u h heq => ?_
  cases heq
  obtain ⟨hon, hcolon⟩ := hP s h
  have htext : (render r s.current).text = s.current.text := Token.text_render hon.ne_newline
  have hfill (old : Option String) (text : String) (l : Location) :
      Mirrors r beyond (fun _ => True) (fillOnce old text (.duplicateAttribute s.current.text) l)
        (fillOnce old text (.duplicateAttribute s.current.text) (render r l)) := by
    have hfilled : Mirrors r beyond (fun _ => True) _ _ :=
      mirrors_fillOnce old text (.duplicateAttribute s.current.text) l
    rwa [render_unplaced r old] at hfilled
  dsimp only
  rw [htext]
  refine .ite (fun _ => .fail) fun _ => mirrors_pastColon ?_ ?_
  · rintro _ rfl
    exact ⟨hon.ne_eof, hcolon⟩
  · refine .bind mirrors_takeString fun text => .bind .finishLine fun _ => ?_
    refine .ite (fun _ => ?_) fun _ => ?_
    · exact .fixed (hfill p.displayName text _) fun displayName => .pure { p with displayName }
    · exact .fixed (hfill p.brandName text _) fun brandName => .pure { p with brandName }

theorem mirrors_agentPart (p : AgentParts) :
    Mirrors r beyond P (agentPart p) (agentPart (render r p)) := by
  refine .peek fun t => ?_
  have hkind {k : TokenKind} (hk : t.kind = k) (hne : k ≠ .eof) (s : ParserState)
      (hs : P s ∧ s.current = t) : s.kind ≠ .eof := by
    rwa [ParserState.kind, hs.2, hk]
  rw [Token.kind_render]
  split
  case h_1 hk =>
    refine .bind (mirrors_settingsSection (hkind hk (by decide))) fun section' => ?_
    exact .bind (mirrors_fillOnce p.config section' _ _) fun config => .pure { p with config }
  case h_2 hk =>
    refine .bind (mirrors_settingsSection (hkind hk (by decide))) fun section' => ?_
    exact .bind (mirrors_fillOnce p.defaults section' _ _) fun defaults => .pure { p with defaults }
  case h_3 hk =>
    refine .bind (mirrors_flowSection (hkind hk (by decide))) fun f => ?_
    change Mirrors r beyond _ _ (pure { render r p with flows := render r p.flows ++ [render r f] })
    rw [render_concat]
    exact .pure { p with flows := p.flows ++ [f] }
  case h_4 hk =>
    refine .bind (mirrors_messageSection (hkind hk (by decide))) fun m => ?_
    exact .bind (mirrors_fillOnce p.messages m _ _) fun messages => .pure { p with messages }
  case h_5 => exact .fail
  case h_6 =>
    refine .look (fun s hs _ => startsEntry_rendered hs) fun b => ?_
    refine .ite (fun hb => mirrors_agentAttribute p fun s hs => ?_) fun _ => .unexpected
    have hstarts := Bool.and_eq_true_iff.mp (hs.2.trans hb)
    exact ⟨onLine_of_isWordlike (P := P) hstarts.1 s ⟨hs.1.1, rfl⟩, eq_of_beq hstarts.2⟩

theorem mirrors_agent (hP : ∀ s, P s → s.kind ≠ .eof) : Mirrors r beyond P agent agent := by
  refine .bind (.advance hP) fun start => .bind mirrors_takeName fun name => ?_
  refine .bind (.expect (by decide)) fun _ =>
    .bind (.block (.whole mirrors_agentPart) .empty) fun parts => ?_
  exact .bind .spanFrom fun _ => .pure _

end Parser

end AgentScript
